import IrSurvey.Json.Reader
import IrSurvey.Json.Writer
import IrSurvey.Proofs.Json.Numeral

/-!
The reader puts a value together from its tokens, whatever frames are open around it.
-/
namespace IrSurvey.Json

/-- A value that can be written: its numbers are in the grammar, and its strings have a text. -/
inductive Plain : Json → Prop
  | null : Plain .null
  | bool (b : Bool) : Plain (.bool b)
  | number (n : Numeral) : Plain (.number n.literal)
  | string (s : String) : Plain (.string s)
  | array {items : List Json} : (∀ v ∈ items, Plain v) → Plain (.array items)
  | object {members : List (String × Json)} : (∀ m ∈ members, Plain m.2) → Plain (.object members)

theorem plain_ofNat (n : Nat) : Plain (.ofNat n) := by
  rw [ofNat, ← Numeral.literal_ofNat]
  exact .number (.ofNat n)

theorem mapM_map_eq_some {α β : Type} {f : α → β} {g : β → Option α} {l : List α}
    (h : ∀ a ∈ l, g (f a) = some a) : (l.map f).mapM g = some l := by
  induction l with
  | nil => rfl
  | cons a l ih =>
      rw [List.map_cons, List.mapM_cons, h a List.mem_cons_self,
        ih fun b hb => h b (List.mem_cons_of_mem a hb)]
      rfl

open Reader

/-- From its tokens the reader gets the value, whatever comes behind it. -/
def Puts (v : Json) : Prop :=
  ∀ ts frames, (tokens v ++ ts).foldlM step? (.value frames) = ts.foldlM step? (put v frames)

/-- The tokens of a first item do not close the array. -/
theorem foldlM_firstItem (v : Json) (ts : List Token) (frames : List Frame) :
    (tokens v ++ ts).foldlM step? (.firstItem frames) =
      (tokens v ++ ts).foldlM step? (.value (.array [] :: frames)) := by
  cases v with
  | array items => cases items <;> rfl
  | object members => cases members <;> rfl
  | _ => rfl

theorem foldlM_itemTokens {vs : List Json} (hvs : ∀ v ∈ vs, Puts v) (items : List Json)
    (ts : List Token) (frames : List Frame) :
    (itemTokens vs ++ ts).foldlM step? (.afterItem items frames) =
      ts.foldlM step? (put (.array (items.reverse ++ vs)) frames) := by
  induction vs generalizing items with
  | nil =>
      rw [List.append_nil]
      rfl
  | cons v vs ih =>
      have htail := ih (fun w hw => hvs w (List.mem_cons_of_mem v hw)) (v :: items)
      calc (itemTokens (v :: vs) ++ ts).foldlM step? (.afterItem items frames)
          = (tokens v ++ (itemTokens vs ++ ts)).foldlM step? (.value (.array items :: frames)) := by
            rw [itemTokens, List.cons_append, List.append_assoc]
            rfl
        _ = (itemTokens vs ++ ts).foldlM step? (.afterItem (v :: items) frames) :=
            hvs v List.mem_cons_self _ _
        _ = ts.foldlM step? (put (.array (items.reverse ++ v :: vs)) frames) := by
            rw [htail, List.reverse_cons, List.append_assoc, List.singleton_append]

/-- Members as the reader keeps them, last first. -/
def kept (members : List (String × Json)) : List (Option String × Json) :=
  (members.map fun m => (some m.1, m.2)).reverse

theorem closeObject_kept (members : List (String × Json)) :
    closeObject (kept members) = .object members := by
  rw [closeObject, kept, List.reverse_reverse, mapM_map_eq_some]
  intro m _
  rfl

theorem foldlM_memberTokens {ms : List (String × Json)} (hms : ∀ m ∈ ms, Puts m.2)
    (members : List (String × Json)) (ts : List Token) (frames : List Frame) :
    (memberTokens ms ++ ts).foldlM step? (.afterMember (kept members) frames) =
      ts.foldlM step? (put (.object (members ++ ms)) frames) := by
  induction ms generalizing members with
  | nil =>
      rw [List.append_nil, ← closeObject_kept]
      rfl
  | cons m ms ih =>
      have htail := ih (fun n hn => hms n (List.mem_cons_of_mem m hn)) (members ++ [m])
      have hkept : (some m.1, m.2) :: kept members = kept (members ++ [m]) := by
        simp [kept]
      calc (memberTokens (m :: ms) ++ ts).foldlM step? (.afterMember (kept members) frames)
          = (tokens m.2 ++ (memberTokens ms ++ ts)).foldlM step?
              (.value (.object (kept members) (some m.1) :: frames)) := by
            rw [memberTokens, List.cons_append, List.cons_append, List.cons_append,
              List.append_assoc]
            rfl
        _ = (memberTokens ms ++ ts).foldlM step?
              (.afterMember ((some m.1, m.2) :: kept members) frames) :=
            hms m List.mem_cons_self _ _
        _ = ts.foldlM step? (put (.object (members ++ m :: ms)) frames) := by
            rw [hkept, htail, List.append_assoc, List.singleton_append]

theorem puts_array {items : List Json} (h : ∀ v ∈ items, Puts v) : Puts (.array items) := by
  intro ts frames
  cases items with
  | nil => rfl
  | cons v vs =>
      calc (tokens (.array (v :: vs)) ++ ts).foldlM step? (.value frames)
          = (tokens v ++ (itemTokens vs ++ ts)).foldlM step? (.firstItem frames) := by
            rw [tokens, List.cons_append, List.append_assoc]
            rfl
        _ = (itemTokens vs ++ ts).foldlM step? (.afterItem [v] frames) := by
            rw [foldlM_firstItem, h v List.mem_cons_self]
            rfl
        _ = ts.foldlM step? (put (.array (v :: vs)) frames) :=
            foldlM_itemTokens (fun w hw => h w (List.mem_cons_of_mem v hw)) [v] ts frames

theorem puts_object {members : List (String × Json)} (h : ∀ m ∈ members, Puts m.2) :
    Puts (.object members) := by
  intro ts frames
  cases members with
  | nil => rfl
  | cons m ms =>
      calc (tokens (.object (m :: ms)) ++ ts).foldlM step? (.value frames)
          = (tokens m.2 ++ (memberTokens ms ++ ts)).foldlM step?
              (.value (.object [] (some m.1) :: frames)) := by
            rw [tokens, List.cons_append, List.cons_append, List.cons_append, List.append_assoc]
            rfl
        _ = (memberTokens ms ++ ts).foldlM step? (.afterMember (kept [m]) frames) :=
            h m List.mem_cons_self _ _
        _ = ts.foldlM step? (put (.object (m :: ms)) frames) :=
            foldlM_memberTokens (fun n hn => h n (List.mem_cons_of_mem m hn)) [m] ts frames

theorem puts {v : Json} (hv : v.Plain) : Puts v := by
  induction hv with
  | null => exact fun _ _ => rfl
  | bool b => exact fun _ _ => rfl
  | number n => exact fun _ _ => rfl
  | string s => exact fun _ _ => rfl
  | array _ ih => exact puts_array ih
  | object _ ih => exact puts_object ih

end IrSurvey.Json
