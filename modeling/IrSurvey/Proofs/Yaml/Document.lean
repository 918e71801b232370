import Mathlib.Data.List.TakeWhile
import IrSurvey.Yaml.Document

/-!
Documents out of tokens: from the tokens of its members, the reader puts a block mapping together,
whatever it holds so far and whatever stands around it.
-/
namespace IrSurvey.Yaml.Document

variable {handles : Handles} {anchors : Anchors} {a : Option Nat} {slots : List Slot}
  {members before : List (Node × Node)} {style : Style} {text : String} {t : Token}
  {ts rest : List Token}

/-- The reader where a key of a block mapping is due. -/
def atKey (anchors : Anchors) (a : Option Nat) (members : List (Node × Node)) (slots : List Slot) :
    Reader :=
  { state := .sign (.key a members.reverse) slots, anchors }

/-- A key comes next, or the end of the mapping. -/
def EndsMember (t : Token) : Prop :=
  t = .key ∨ t = .blockEnd

/-- The tokens of members: in front of the next key or the end of the mapping they add them. -/
structure Builds (members : List (Node × Node)) (ts : List Token) : Prop where
  inside : ∀ t ∈ ts, isOutside t = false
  head? : ts.head? = some .key
  run : ∀ handles anchors a before slots t rest, EndsMember t →
    (ts ++ t :: rest).foldlM (step? handles) (atKey anchors a before slots) =
      (t :: rest).foldlM (step? handles) (atKey anchors a (before ++ members) slots)

def keyTokens (style : Style) (text : String) : List Token :=
  [.key, .scalar style text, .value]

/-- A key without properties. -/
def keyNode (style : Style) (text : String) : Node :=
  .scalar none none style text

/-- Behind a key and its colon a value is due. -/
theorem foldlM_keyTokens (style : Style) (text : String) (rest : List Token) :
    (keyTokens style text ++ rest).foldlM (step? handles) (atKey anchors a before slots) =
      rest.foldlM (step? handles)
        { state := .node {} (.value a before.reverse (keyNode style text) :: slots), anchors } :=
  rfl

theorem atKey_concat (anchors : Anchors) (a : Option Nat) (before : List (Node × Node))
    (member : Node × Node) (slots : List Slot) :
    atKey anchors a (before ++ [member]) slots =
      { state := .sign (.key a (member :: before.reverse)) slots, anchors } := by
  rw [atKey, List.reverse_append, List.reverse_singleton, List.singleton_append]

theorem builds_scalar (style style' : Style) (text text' : String) :
    Builds [(keyNode style text, .scalar none none style' text')]
      (keyTokens style text ++ [.scalar style' text']) where
  inside := by simp [keyTokens, isOutside, isDirective]
  head? := rfl
  run := by
    intro handles anchors a before slots t rest _
    rw [List.append_assoc, foldlM_keyTokens, atKey_concat]
    rfl

/-- A value may be left out. -/
theorem builds_omitted (style : Style) (text : String) :
    Builds [(keyNode style text, .empty)] (keyTokens style text) where
  inside := by simp [keyTokens, isOutside, isDirective]
  head? := rfl
  run := by
    intro handles anchors a before slots t rest ht
    rw [foldlM_keyTokens, atKey_concat]
    rcases ht with rfl | rfl
    · rfl
    · rfl

theorem Builds.mapping (h : Builds members ts) (style : Style) (text : String) :
    Builds [(keyNode style text, .mapping none members)]
      (keyTokens style text ++ (.blockMapping :: (ts ++ [.blockEnd]))) where
  inside := by
    intro t ht
    simp only [keyTokens, List.cons_append, List.nil_append, List.mem_cons, List.mem_append,
      List.not_mem_nil, or_false] at ht
    rcases ht with rfl | rfl | rfl | rfl | ht | rfl
    case inr.inr.inr.inr.inl => exact h.inside t ht
    all_goals rfl
  head? := rfl
  run := by
    intro handles anchors a before slots t rest _
    have hmembers := h.run handles anchors none []
      (.value a before.reverse (keyNode style text) :: slots) .blockEnd (t :: rest) (.inr rfl)
    have hend : (.blockEnd :: t :: rest).foldlM (step? handles)
        (atKey anchors none ([] ++ members)
          (.value a before.reverse (keyNode style text) :: slots)) =
        (t :: rest).foldlM (step? handles)
          { state := .sign (.key a ((keyNode style text, .mapping none members.reverse.reverse) ::
              before.reverse)) slots, anchors } :=
      rfl
    rw [List.reverse_reverse] at hend
    rw [List.append_assoc, foldlM_keyTokens, atKey_concat, ← hend, ← hmembers, List.cons_append,
      List.append_assoc, List.singleton_append]
    rfl

theorem Builds.append {members' : List (Node × Node)} {ts' : List Token} (h : Builds members ts)
    (h' : Builds members' ts') : Builds (members ++ members') (ts ++ ts') where
  inside := by
    intro t ht
    rcases List.mem_append.1 ht with ht | ht
    · exact h.inside t ht
    · exact h'.inside t ht
  head? := by
    rw [List.head?_append, h.head?]
    rfl
  run := by
    intro handles anchors a before slots t rest ht
    obtain ⟨us, hus⟩ := List.head?_eq_some_iff.1 h'.head?
    have hsecond := h'.run handles anchors a (before ++ members) slots t rest ht
    rw [hus, List.cons_append] at hsecond
    have hfirst := h.run handles anchors a before slots .key
    rw [List.append_assoc, hus, List.cons_append, hfirst _ (.inl rfl),
      hsecond, List.append_assoc]

/-! ## The whole document -/

/-- The document of a block mapping, whose start may be marked. -/
theorem Builds.ofTokens? (h : Builds members ts) (marks : List Token)
    (hmarks : marks = [] ∨ marks = [.documentStart]) :
    Node.ofTokens? (marks ++ .blockMapping :: (ts ++ [.blockEnd])) =
      some (.mapping none members) := by
  have hinside : ∀ t ∈ Token.blockMapping :: (ts ++ [.blockEnd]), (!isOutside t) = true := by
    intro t ht
    simp only [List.mem_cons, List.mem_append, List.not_mem_nil, or_false] at ht
    rcases ht with rfl | ht | rfl
    · rfl
    · rw [h.inside t ht]
      rfl
    · rfl
  have hcontent : ∀ handles, content handles (.blockMapping :: (ts ++ [.blockEnd])) =
      some (.mapping none members) := by
    intro handles
    have hrun := h.run handles [] none [] [] .blockEnd [] (.inr rfl)
    have hend : [Token.blockEnd].foldlM (step? handles) (atKey [] none ([] ++ members) []) =
        some { state := .done (.mapping none members.reverse.reverse), anchors := [] } := rfl
    have hstart : (Token.blockMapping :: (ts ++ [.blockEnd])).foldlM (step? handles)
        { state := .node {} [], anchors := [] } =
          (ts ++ [Token.blockEnd]).foldlM (step? handles) (atKey [] none [] []) := rfl
    rw [content, hstart, hrun, hend, List.reverse_reverse]
  have hnode : ∀ marked handles, node? marked handles (.blockMapping :: (ts ++ [.blockEnd])) =
      some (.mapping none members) := by
    intro marked handles
    rw [node?, List.takeWhile_eq_self_iff.2 hinside, List.dropWhile_eq_nil_iff.2 hinside]
    simp [hcontent]
  rcases hmarks with rfl | rfl
  · exact hnode false standardHandles
  · exact hnode true standardHandles

end IrSurvey.Yaml.Document
