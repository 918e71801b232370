import IrSurvey.Proofs.Json.Reader
import IrSurvey.Proofs.Json.Token

/-!
The texts of a JSON value: its tokens in any of their spellings, with blanks around them. Each of
the texts is read as the value, and what is written for a value is one of them.
-/
namespace IrSurvey.Json

namespace Token

/-- A text of tokens, with blanks between them. -/
inductive Spelling : List Token → List Char → Prop
  | nil {g : List Char} : (∀ c ∈ g, isSpace c = true) → Spelling [] g
  | cons {g w s : List Char} {t : Token} {ts : List Token} : (∀ c ∈ g, isSpace c = true) →
      Written t w → t.EndsBefore s → Spelling ts s → Spelling (t :: ts) (g ++ (w ++ s))

theorem Spelling.all? {ts : List Token} {s : List Char} (h : Spelling ts s) :
    all? s = some ts := by
  induction h with
  | @nil g hg =>
      rw [← all?_nil]
      refine all?_congr ?_
      rw [List.dropWhile_eq_nil_iff.2 hg]
      rfl
  | @cons g w s t ts hg ht hr _ ih =>
      obtain ⟨c, u, hw, hc⟩ := ht.head?
      have hfront : (w ++ s).dropWhile isSpace = w ++ s := by
        rw [hw]
        exact List.dropWhile_cons_of_neg (by simp [hc])
      have hdrop : (g ++ (w ++ s)).dropWhile isSpace = (w ++ s).dropWhile isSpace :=
        List.dropWhile_append_of_pos hg
      rw [all?_congr hdrop, all?_of_next? hfront (ht.next? hr), ih]
      rfl

end Token

/-- A text of a value: its tokens, each in one of its spellings. -/
def IsText (v : Json) (s : List Char) : Prop :=
  Token.Spelling (tokens v) s

/-- Every text of a value is read as the value. -/
theorem IsText.read? {v : Json} {s : String} (h : IsText v s.toList) (hv : v.Plain) :
    read? s = some v := by
  have hput := puts hv [] []
  rw [List.append_nil] at hput
  rw [Json.read?, Token.Spelling.all? h]
  simp only [hput]
  rfl

/-! ## What is written for a value -/

/-- Tokens that are written without blanks. -/
def Spelled (ts : List Token) : Prop :=
  Token.Spelling ts (ts.flatMap Token.spell)

theorem Spelled.cons {t : Token} {ts : List Token} (ht : t.Written t.spell)
    (hend : t.EndsBefore (ts.flatMap Token.spell)) (hts : Spelled ts) : Spelled (t :: ts) := by
  have hblank : ∀ c ∈ ([] : List Char), Token.isSpace c = true := nofun
  exact Token.Spelling.cons hblank ht hend hts

theorem Spelled.fixed {t : Token} {ts : List Token} (ht : t.isFixed = true) (hts : Spelled ts) :
    Spelled (t :: ts) := by
  refine .cons (.fixed ht) ?_ hts
  rintro ⟨literal, rfl⟩
  cases ht

theorem Spelled.string {ts : List Token} (s : String) (hts : Spelled ts) :
    Spelled (.string (some s) :: ts) := by
  refine .cons (Token.written_string s) ?_ hts
  rintro ⟨literal, ⟨⟩⟩

/-- A value in front of tokens that end a number. -/
def SpelledBefore (ts : List Token) : Prop :=
  ∀ us, Token.EndsNumber (us.flatMap Token.spell) → Spelled us → Spelled (ts ++ us)

theorem endsNumber_itemTokens (vs : List Json) (us : List Token) :
    Token.EndsNumber ((itemTokens vs ++ us).flatMap Token.spell) := by
  cases vs <;> exact fun c hc => Option.some.inj hc ▸ by decide

theorem endsNumber_memberTokens (ms : List (String × Json)) (us : List Token) :
    Token.EndsNumber ((memberTokens ms ++ us).flatMap Token.spell) := by
  cases ms <;> exact fun c hc => Option.some.inj hc ▸ by decide

theorem spelled_itemTokens {vs : List Json} (hvs : ∀ v ∈ vs, SpelledBefore (tokens v))
    {us : List Token} (hus : Spelled us) : Spelled (itemTokens vs ++ us) := by
  induction vs with
  | nil => exact .fixed rfl hus
  | cons v vs ih =>
      have htail := ih fun w hw => hvs w (List.mem_cons_of_mem v hw)
      have hv := hvs v List.mem_cons_self _ (endsNumber_itemTokens vs us) htail
      rw [itemTokens, List.cons_append, List.append_assoc]
      exact .fixed rfl hv

theorem spelled_memberTokens {ms : List (String × Json)}
    (hms : ∀ m ∈ ms, SpelledBefore (tokens m.2)) {us : List Token} (hus : Spelled us) :
    Spelled (memberTokens ms ++ us) := by
  induction ms with
  | nil => exact .fixed rfl hus
  | cons m ms ih =>
      have htail := ih fun n hn => hms n (List.mem_cons_of_mem m hn)
      have hm := hms m List.mem_cons_self _ (endsNumber_memberTokens ms us) htail
      rw [memberTokens, List.cons_append, List.cons_append, List.cons_append, List.append_assoc]
      exact .fixed rfl (.string m.1 (.fixed rfl hm))

theorem spelledBefore_tokens {v : Json} (hv : v.Plain) : SpelledBefore (tokens v) := by
  induction hv with
  | null => exact fun us _ hus => .fixed rfl hus
  | bool b => exact fun us _ hus => .fixed rfl hus
  | number n => exact fun us hend hus => .cons (Token.written_number n) (fun _ => hend) hus
  | string s => exact fun us _ hus => .string s hus
  | @array items _ ih =>
      intro us _ hus
      cases items with
      | nil => exact .fixed rfl (.fixed rfl hus)
      | cons v vs =>
          have hvs := spelled_itemTokens (fun w hw => ih w (List.mem_cons_of_mem v hw)) hus
          have hv := ih v List.mem_cons_self _ (endsNumber_itemTokens vs us) hvs
          rw [tokens, List.cons_append, List.append_assoc]
          exact .fixed rfl hv
  | @object members _ ih =>
      intro us _ hus
      cases members with
      | nil => exact .fixed rfl (.fixed rfl hus)
      | cons m ms =>
          have hms := spelled_memberTokens (fun n hn => ih n (List.mem_cons_of_mem m hn)) hus
          have hm := ih m List.mem_cons_self _ (endsNumber_memberTokens ms us) hms
          rw [tokens, List.cons_append, List.cons_append, List.cons_append, List.append_assoc]
          exact .fixed rfl (.string m.1 (.fixed rfl hm))

theorem isText_render {v : Json} (hv : v.Plain) : IsText v v.render.toList := by
  have hnil : Spelled [] := Token.Spelling.nil nofun
  have hspelled := spelledBefore_tokens hv [] nofun hnil
  rwa [List.append_nil, Spelled, ← String.toList_ofList (l := (tokens v).flatMap Token.spell)]
    at hspelled

/-- A value that is written is read back. -/
theorem read?_render {v : Json} (hv : v.Plain) : read? v.render = some v :=
  (isText_render hv).read? hv

end IrSurvey.Json
