import IrSurvey.Listing.Literal
import IrSurvey.Proofs.Text.Leading
import IrSurvey.Proofs.Text.Line

/-!
String literals and the quotes of a line. The payloads of a line that is cut at its quotes are the
stretches behind those that end in `c`. If the quotes are paired from the left, every second one
ends a string; the end of a string that ends in `c` itself is taken for the start of a literal.
-/
namespace IrSurvey.Listing.Literal
open Text

/-- The stretch ends in the letter that marks a literal. -/
def Marks (stretch : List Char) : Prop :=
  stretch.getLast? = some 'c'

instance (stretch : List Char) : Decidable (Marks stretch) :=
  inferInstanceAs (Decidable (_ = _))

/-- The payloads of a line that is cut at its quotes. A payload and the mark in front of it are used
up together. -/
def payloadsAmong : List (List Char) → List (List Char)
  | front :: content :: rest :: ps =>
    if Marks front then content :: payloadsAmong (rest :: ps)
    else payloadsAmong (content :: rest :: ps)
  | _ => []

/-- The payloads in a text from left to right, empty ones among them. -/
def payloads (s : List Char) : List (List Char) :=
  match _h : payload? s with
  | some (p, rest) => p :: payloads rest
  | none =>
    match s with
    | [] => []
    | _ :: r => payloads r
termination_by s.length
decreasing_by
  · exact length_payload?_lt _h
  · exact Nat.lt_succ_self _

/-! ## Payloads between quotes -/

variable {s t p q seen : List Char}

theorem quote_not_mem (h : ∀ c ∈ q, isPayloadChar c = true) : '"' ∉ q :=
  fun hmem => absurd (h _ hmem) (by decide)

theorem payload?_eq_none {c : Char} (h : c = 'c' → s.head? ≠ some '"') :
    payload? (c :: s) = none := by
  unfold payload?
  split
  next he =>
      obtain ⟨rfl, rfl⟩ := List.cons.inj he
      exact absurd rfl (h rfl)
  next => rfl

theorem payload?_quoted (hq : ∀ c ∈ q, isPayloadChar c = true) :
    payload? ('c' :: '"' :: (q ++ '"' :: t)) = some (q, t) := by
  have hend : isPayloadChar '"' = false := by decide
  simp only [payload?, dropWhile_append_cons hq hend, takeWhile_append_cons hq hend]

theorem payload?_open (hq : ∀ c ∈ q, isPayloadChar c = true) :
    payload? ('c' :: '"' :: q) = none := by
  have hdrop : q.dropWhile isPayloadChar = [] := List.dropWhile_eq_nil_iff.2 hq
  simp only [payload?, hdrop]

theorem payloads_cons_of_none {c : Char} (h : payload? (c :: s) = none) :
    payloads (c :: s) = payloads s := by
  rw [payloads]
  split
  next hp => cases h.symm.trans hp
  next => rfl

theorem payloads_of_some (h : payload? s = some (q, t)) : payloads s = q :: payloads t := by
  rw [payloads]
  split
  next hp =>
      obtain ⟨rfl, rfl⟩ := Prod.mk.inj (Option.some.inj (h.symm.trans hp))
      rfl
  next hp => cases h.symm.trans hp

theorem allFrom_cons_of_none {c : Char} (h : payload? (c :: s) = none) :
    allFrom seen (c :: s) = allFrom (c :: seen) s := by
  rw [allFrom]
  split
  next hp => cases h.symm.trans hp
  next => rfl

theorem allFrom_of_some (h : payload? s = some (q, t)) :
    allFrom seen s =
      (ofPayload? (lineAround ('"' :: 'c' :: seen) (q ++ '"' :: t)) q).toList ++
        allFrom ('"' :: (q.reverse ++ '"' :: 'c' :: seen)) t := by
  rw [allFrom]
  split
  next hp =>
      obtain ⟨rfl, rfl⟩ := Prod.mk.inj (Option.some.inj (h.symm.trans hp))
      rfl
  next hp => cases h.symm.trans hp

theorem allFrom_nil : allFrom seen [] = [] := by
  rw [allFrom]
  rfl

theorem map_payload_toList_ofPayload? (line payload : List Char) :
    (ofPayload? line payload).toList.map (·.payload.toList) = [payload].filter (· ≠ []) := by
  by_cases h : payload = []
  · simp [ofPayload?, h]
  · simp [ofPayload?, h]

/-- Wherever the search stands, the literals it finds are those with the payloads that are not
empty. -/
theorem map_payload_allFrom (seen s : List Char) :
    (allFrom seen s).map (·.payload.toList) = (payloads s).filter (· ≠ []) := by
  fun_induction payloads s generalizing seen with
  | case1 s q t hread ih =>
      rw [allFrom_of_some hread, List.map_append, map_payload_toList_ofPayload?, ih,
        ← List.filter_append]
      rfl
  | case2 hread => rw [allFrom_nil]; rfl
  | case3 c s hread ih => rw [allFrom_cons_of_none hread, ih]

theorem payloads_nil : payloads [] = [] := by
  rw [payloads]
  rfl

theorem exists_ofPayload?_of_mem_allFrom {l : Literal} (h : l ∈ allFrom seen s) :
    ∃ line payload, ofPayload? line payload = some l := by
  fun_induction payloads s generalizing seen with
  | case1 s q t hread ih =>
      rw [allFrom_of_some hread, List.mem_append, Option.mem_toList] at h
      rcases h with h | h
      · exact ⟨_, _, h⟩
      · exact ih h
  | case2 hread =>
      rw [allFrom_nil] at h
      cases h
  | case3 c s hread ih =>
      rw [allFrom_cons_of_none hread] at h
      exact ih h

/-- No literal starts in a stretch without a quote, unless a quote follows its last character. -/
theorem payloads_append (hp : '"' ∉ p) (h : Marks p → t.head? ≠ some '"') :
    payloads (p ++ t) = payloads t := by
  induction p with
  | nil => rfl
  | cons c p ih =>
      have hrest : '"' ∉ p := fun hmem => hp (List.mem_cons_of_mem c hmem)
      have hnone : payload? (c :: (p ++ t)) = none := by
        apply payload?_eq_none
        rintro rfl
        cases p with
        | nil => exact h rfl
        | cons b p => exact fun he => hrest (Option.some.inj he ▸ List.mem_cons_self)
      rw [List.cons_append, payloads_cons_of_none hnone]
      apply ih hrest
      intro hmarks
      apply h
      rw [Marks, List.getLast?_cons, Option.mem_def.1 hmarks]
      rfl

theorem payloads_of_no_quote (hp : '"' ∉ p) : payloads p = [] := by
  have h := payloads_append (t := []) hp fun _ => nofun
  rwa [List.append_nil, payloads_nil] at h

/-- The first quote of a line starts a literal if it is marked and a second quote follows. -/
theorem payloads_quoted (hp : '"' ∉ p) (hq : ∀ c ∈ q, isPayloadChar c = true) (t : List Char) :
    payloads (p ++ '"' :: (q ++ '"' :: t)) =
      if Marks p then q :: payloads t else payloads (q ++ '"' :: t) := by
  split
  next hmarks =>
      obtain ⟨p, rfl⟩ := List.getLast?_eq_some_iff.1 hmarks
      have hp : '"' ∉ p := fun h => hp (List.mem_append_left _ h)
      rw [List.append_assoc, List.singleton_append, payloads_append hp fun _ => by simp,
        payloads_of_some (payload?_quoted hq)]
  next hmarks =>
      rw [payloads_append hp fun h => absurd h hmarks,
        payloads_cons_of_none (payload?_eq_none fun h => absurd h (by decide))]

theorem payloads_open (hp : '"' ∉ p) (hq : ∀ c ∈ q, isPayloadChar c = true) :
    payloads (p ++ '"' :: q) = [] := by
  have hrest : payloads ('"' :: q) = [] := by
    rw [payloads_cons_of_none (payload?_eq_none fun h => absurd h (by decide)),
      payloads_of_no_quote (quote_not_mem hq)]
  by_cases hmarks : Marks p
  · obtain ⟨p, rfl⟩ := List.getLast?_eq_some_iff.1 hmarks
    have hp : '"' ∉ p := fun h => hp (List.mem_append_left _ h)
    rw [List.append_assoc, List.singleton_append, payloads_append hp fun _ => by simp,
      payloads_cons_of_none (payload?_open hq), hrest]
  · rw [payloads_append hp fun h => absurd h hmarks, hrest]

theorem intercalate_quote (p q r : List Char) (ps : List (List Char)) :
    ['"'].intercalate (p :: q :: r :: ps) =
      p ++ '"' :: (q ++ '"' :: ['"'].intercalate (r :: ps)) := by
  simp [List.intercalate_cons_cons]

theorem payloads_intercalate {ps : List (List Char)}
    (h : ∀ p ∈ ps, ∀ c ∈ p, isPayloadChar c = true) :
    payloads (['"'].intercalate ps) = payloadsAmong ps := by
  fun_induction payloadsAmong ps with
  | case1 front content rest ps hmarks ih =>
      obtain ⟨hfront, hcontent, hps⟩ := List.forall_mem_cons.1 h |>.imp_right List.forall_mem_cons.1
      rw [intercalate_quote, payloads_quoted (quote_not_mem hfront) hcontent, if_pos hmarks, ih hps]
  | case2 front content rest ps hmarks ih =>
      obtain ⟨hfront, hrest⟩ := List.forall_mem_cons.1 h
      have hcontent := hrest content List.mem_cons_self
      rw [intercalate_quote, payloads_quoted (quote_not_mem hfront) hcontent, if_neg hmarks,
        ← ih hrest]
      simp [List.intercalate_cons_cons]
  | case3 ps hps =>
      match ps, hps with
      | [], _ => exact payloads_nil
      | [p], _ =>
          rw [List.intercalate_singleton]
          exact payloads_of_no_quote (quote_not_mem (h p List.mem_cons_self))
      | [p, q], _ =>
          obtain ⟨hp, hq⟩ := List.forall_mem_cons.1 h
          rw [List.intercalate_cons_cons, List.intercalate_singleton, List.append_assoc]
          exact payloads_open (quote_not_mem hp) (hq q List.mem_cons_self)
      | p :: q :: r :: ps, hps => exact absurd rfl (hps p q r ps)

theorem payloads_eq_payloadsAmong {line : List Char} (h : '\n' ∉ line) :
    payloads line = payloadsAmong (line.splitOn '"') := by
  have hsplit : ['"'].intercalate (line.splitOn '"') = line := List.intercalate_splitOn '"'
  have hpieces : ∀ p ∈ line.splitOn '"', ∀ c ∈ p, isPayloadChar c = true := by
    intro p hp c hc
    have hquote : c ≠ '"' := fun he => not_mem_of_mem_splitOn hp (he ▸ hc)
    have hline : c ∈ line := hsplit ▸ (sublist_intercalate hp).subset hc
    have hnewline : c ≠ '\n' := fun he => h (he ▸ hline)
    simp [isPayloadChar, hquote, hnewline]
  rw [← payloads_intercalate hpieces, hsplit]

/-- The payloads of the literals on a line are those behind its marked stretches. -/
theorem map_payload_all {line : List Char} (h : '\n' ∉ line) :
    (all line).map (·.payload.toList) = (payloadsAmong (line.splitOn '"')).filter (· ≠ []) := by
  rw [all, map_payload_allFrom, payloads_eq_payloadsAmong h]

/-! ## Quotes in pairs -/

/-- A quoted string on a line: the stretch in front of its opening quote, and its content. -/
structure Token where
  front : List Char
  content : List Char
deriving DecidableEq, Repr

/-- The quoted strings of a line that is cut at its quotes, the first quote paired with the second,
the third with the fourth, and so on. -/
def tokensAmong : List (List Char) → List Token
  | front :: content :: rest :: ps => { front, content } :: tokensAmong (rest :: ps)
  | _ => []

def tokens (line : List Char) : List Token :=
  tokensAmong (line.splitOn '"')

/-- The contents of the quoted strings with a mark. -/
def markedContents (ts : List Token) : List (List Char) :=
  (ts.filter fun t => Marks t.front).map (·.content)

/-- A string without a mark does not end in one, unless it is the last. -/
def Settled (ts : List Token) : Prop :=
  ∀ t ∈ ts.dropLast, Marks t.content → Marks t.front

instance (ts : List Token) : Decidable (Settled ts) :=
  inferInstanceAs (Decidable (∀ t ∈ ts.dropLast, _))

theorem settled_cons {t : Token} {ts : List Token} :
    Settled (t :: ts) ↔ (ts ≠ [] → Marks t.content → Marks t.front) ∧ Settled ts := by
  cases ts with
  | nil => simp [Settled]
  | cons u us => simp [Settled]

theorem markedContents_cons (t : Token) (ts : List Token) :
    markedContents (t :: ts) =
      if Marks t.front then t.content :: markedContents ts else markedContents ts := by
  unfold markedContents
  split
  next h => simp [h]
  next h => simp [h]

/-- Reading from quote to quote and pairing the quotes agree while no unmarked string ends in a
mark. -/
theorem payloadsAmong_eq_markedContents {ps : List (List Char)} (hodd : ps.length % 2 = 1)
    (h : Settled (tokensAmong ps)) : payloadsAmong ps = markedContents (tokensAmong ps) := by
  fun_induction tokensAmong ps with
  | case1 front content rest ps ih =>
      obtain ⟨hfirst, hrest⟩ := settled_cons.1 h
      have hodd : (rest :: ps).length % 2 = 1 := by
        simp only [List.length_cons] at hodd ⊢
        omega
      rw [markedContents_cons, payloadsAmong, ← ih hodd hrest]
      split
      next => rfl
      next hmarks =>
          -- the content is followed by one stretch only, or by a further string
          match ps with
          | [] => rfl
          | [last] => exact absurd (show 2 % 2 = 1 from hodd) (by decide)
          | next :: last :: ps =>
              have hcontent : ¬ Marks content := fun hc =>
                hmarks (hfirst (List.cons_ne_nil _ _) hc)
              rw [payloadsAmong, if_neg hcontent]
  | case2 ps hps =>
      match ps, hps with
      | [], _ => rfl
      | [p], _ => rfl
      | [p, q], _ => rfl
      | p :: q :: r :: ps, hps => exact absurd rfl (hps p q r ps)

/-- On a line where the quotes pair up and no unmarked string but the last ends in a mark, the
literals are the marked strings that are not empty. -/
theorem map_payload_all_of_settled {line : List Char} (hline : '\n' ∉ line)
    (heven : line.count '"' % 2 = 0) (h : Settled (tokens line)) :
    (all line).map (·.payload.toList) = (markedContents (tokens line)).filter (· ≠ []) := by
  have hodd : (line.splitOn '"').length % 2 = 1 := by
    rw [length_splitOn]
    omega
  rw [map_payload_all hline, payloadsAmong_eq_markedContents hodd h, tokens]

theorem map_payload_all_of_settled_section :
    let line := "@g = constant [2 x i8] c\"hi\", section \".text\", partition \"sec\"".toList
    ('\n' ∉ line ∧ line.count '"' % 2 = 0 ∧ Settled (tokens line)) ∧
      (all line).map (·.payload.toList) = ["hi".toList] := by
  intro line
  have hline : '\n' ∉ line := by decide
  have heven : line.count '"' % 2 = 0 := by decide
  have hsettled : Settled (tokens line) := by decide
  exact ⟨⟨hline, heven, hsettled⟩,
    (map_payload_all_of_settled hline heven hsettled).trans (by decide)⟩

/-- The end of an unmarked string is taken for the start of a literal. -/
theorem not_forall_map_payload_all :
    ¬ ∀ line : List Char, '\n' ∉ line → line.count '"' % 2 = 0 →
      (all line).map (·.payload.toList) = (markedContents (tokens line)).filter (· ≠ []) := by
  intro h
  have hline : '\n' ∉ "@g = global i32 0, section \"sec\", partition \"p\"".toList := by decide
  have hread := h _ hline (by decide)
  rw [map_payload_all hline] at hread
  exact absurd hread (by decide)

end IrSurvey.Listing.Literal
