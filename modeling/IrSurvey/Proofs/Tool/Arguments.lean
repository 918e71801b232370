import IrSurvey.Tool.Arguments

/-!
Arguments by what they are. A tool takes them one by one, and what a run is asked are the paths in
their order, the settings file and the question for data, wherever they stand.
-/
namespace IrSurvey

inductive Argument
  | path (p : String)
  | config (value : String)
  | flag (name : String)
deriving DecidableEq, Repr

namespace Argument
open Command

def ofString (arg : String) : Argument :=
  match attached? "--config" arg with
  | some value => .config value
  | none => if isFlag arg then .flag arg else .path arg

/-- What each argument is. Behind two hyphens there are only paths, and a flag is no value. -/
def all : List String → List Argument
  | [] => []
  | "--" :: args => args.map .path
  | "--config" :: value :: args =>
    if isFlag value then .flag "--config" :: all (value :: args) else .config value :: all args
  | arg :: args => ofString arg :: all args

def path? : Argument → Option String
  | .path p => some p
  | _ => none

def config? : Argument → Option String
  | .config value => some value
  | _ => none

/-- The paths among arguments. -/
def paths (args : List String) : List String :=
  (all args).filterMap path?

/-- The settings file that arguments name. -/
def configPath? (args : List String) : Option String :=
  (all args).findSome? config?

/-- The arguments have the flag that asks for data. -/
def AskJson (args : List String) : Prop :=
  .flag "--json" ∈ all args

instance (args : List String) : Decidable (AskJson args) :=
  inferInstanceAs (Decidable (_ ∈ _))

/-- Takes an argument, unless it settles what the tool does. -/
def take (tool : Tool) (g : Given) : Argument → Except Command Given
  | .path p =>
    if p = "" ∨ g.paths.length = tool.arity then .error .misuse
    else .ok { g with paths := g.paths ++ [p] }
  | .config value =>
    if value = "" ∨ g.config.isSome then .error .misuse else .ok { g with config := some value }
  | .flag name =>
    if name = "--json" ∧ tool = .report then
      if g.json then .error .misuse else .ok { g with json := true }
    else .error (ofFlag name)

/-- Takes arguments until one settles what the tool does, or all are taken. -/
def takeAll (tool : Tool) (g : Given) (as : List Argument) : Command :=
  match as.foldlM (take tool) g with
  | .error c => c
  | .ok g => g.complete tool

variable {tool : Tool} {g g' : Given} {arg : String} {args : List String} {a : Argument}
  {as : List Argument}

theorem all_cons (hpaths : arg ≠ "--") (hconfig : arg = "--config" → args = []) :
    all (arg :: args) = ofString arg :: all args := by
  rw [all]
  · exact hpaths
  · intro value rest harg hargs
    rw [hconfig harg] at hargs
    cases hargs

theorem takeAll_cons_of_error {c : Command} (h : take tool g a = .error c) :
    takeAll tool g (a :: as) = c := by
  rw [takeAll, List.foldlM_cons, h]
  rfl

theorem takeAll_cons_of_ok (h : take tool g a = .ok g') :
    takeAll tool g (a :: as) = takeAll tool g' as := by
  rw [takeAll, List.foldlM_cons, h]
  rfl

theorem complete_eq_misuse (h : "" ∈ g.paths ∨ tool.arity < g.paths.length) :
    g.complete tool = .misuse := by
  have hjob : g.job? tool = none := by
    unfold Given.job?
    split
    next => rfl
    next hne =>
        have hlong : tool.arity < g.paths.length := h.resolve_left hne
        split
        next hpaths =>
            rw [hpaths] at hlong
            exact absurd hlong (Nat.lt_irrefl _)
        next hpaths =>
            rw [hpaths] at hlong
            exact absurd hlong (Nat.lt_irrefl _)
        next => rfl
  rw [Given.complete, hjob]

/-- Paths behind two hyphens may be checked at the end or one by one. -/
theorem takeAll_path (tool : Tool) (g : Given) (args : List String) :
    takeAll tool g (args.map .path) = { g with paths := g.paths ++ args }.complete tool := by
  induction args generalizing g with
  | nil =>
      rw [List.append_nil]
      rfl
  | cons p args ih =>
      by_cases hp : p = "" ∨ g.paths.length = tool.arity
      · have htake : take tool g (.path p) = .error .misuse := if_pos hp
        rw [List.map_cons, takeAll_cons_of_error htake, complete_eq_misuse]
        rcases hp with rfl | hp
        · exact .inl (by simp)
        · right
          simp only [List.length_append, List.length_cons]
          omega
      · have htake : take tool g (.path p) = .ok { g with paths := g.paths ++ [p] } := if_neg hp
        rw [List.map_cons, takeAll_cons_of_ok htake, ih]
        simp

theorem take_config_flag (tool : Tool) (g : Given) :
    take tool g (.flag "--config") = .error .misuse := by
  have hask : ofFlag "--config" = .misuse := by decide
  rw [take, if_neg fun h => absurd h.1 (by decide), hask]

theorem parse_cons (hpaths : arg ≠ "--") (hconfig : arg = "--config" → args = []) :
    parse tool g (arg :: args) =
      match take tool g (ofString arg) with
      | .error c => c
      | .ok g => parse tool g args := by
  by_cases harg : arg = "--config"
  · subst harg
    rw [hconfig rfl]
    have hflag : ofString "--config" = .flag "--config" := by decide
    rw [hflag, take_config_flag, parse]
  · rw [parse, ofString]
    · cases hvalue : attached? "--config" arg with
      | some value =>
          simp only [take]
          split <;> rfl
      | none =>
          by_cases hjson : arg = "--json" ∧ tool = .report
          · have hflag : isFlag arg = true := by
              rw [hjson.1]
              decide
            simp only [if_pos hjson, if_pos hflag, take]
            split <;> rfl
          · simp only [if_neg hjson]
            split
            next hflag => simp only [take, if_neg hjson]
            next hflag =>
                simp only [take]
                split <;> rfl
    · exact hpaths
    · exact fun h => absurd h harg
    · exact fun _ _ h => absurd h harg

/-- A command line says what its arguments say one by one. -/
theorem parse_eq_takeAll (tool : Tool) (g : Given) (args : List String) :
    parse tool g args = takeAll tool g (all args) := by
  fun_induction all args generalizing g with
  | case1 => rfl
  | case2 args => rw [takeAll_path, parse]
  | case3 value args hflag ih =>
      rw [takeAll_cons_of_error (take_config_flag tool g), parse, if_pos (.inl hflag)]
  | case4 value args hflag ih =>
      by_cases hvalue : value = "" ∨ g.config.isSome
      · have htake : take tool g (.config value) = .error .misuse := if_pos hvalue
        rw [takeAll_cons_of_error htake, parse, if_pos (.inr hvalue)]
      · have htake : take tool g (.config value) = .ok { g with config := some value } :=
          if_neg hvalue
        rw [takeAll_cons_of_ok htake, parse, if_neg (not_or.2 ⟨hflag, hvalue⟩), ih]
  | case5 arg args hpaths hconfig ih =>
      have hlast : arg = "--config" → args = [] := by
        intro harg
        cases args with
        | nil => rfl
        | cons value args => exact (hconfig value args harg rfl).elim
      rw [parse_cons hpaths hlast]
      cases htake : take tool g (ofString arg) with
      | error c => exact (takeAll_cons_of_error htake).symm
      | ok g' =>
          rw [takeAll_cons_of_ok htake]
          exact ih g'

/-! ## What a run is asked -/

/-- The ways in which an argument is taken. -/
theorem take_eq_ok (h : take tool g a = .ok g') :
    (∃ p, a = .path p ∧ g' = { g with paths := g.paths ++ [p] }) ∨
    (∃ value, a = .config value ∧ g.config = none ∧ g' = { g with config := some value }) ∨
    (a = .flag "--json" ∧ g.json = false ∧ g' = { g with json := true }) := by
  cases a with
  | path p =>
      simp only [take] at h
      split at h
      next => cases h
      next => exact .inl ⟨p, rfl, (Except.ok.inj h).symm⟩
  | config value =>
      simp only [take] at h
      split at h
      next => cases h
      next hvalue =>
          have hnone : g.config = none := by simpa using (not_or.1 hvalue).2
          exact .inr (.inl ⟨value, rfl, hnone, (Except.ok.inj h).symm⟩)
  | flag name =>
      simp only [take] at h
      split at h
      next hname =>
          split at h
          next => cases h
          next hjson =>
              exact .inr (.inr ⟨by rw [hname.1], by simpa using hjson, (Except.ok.inj h).symm⟩)
      next => cases h

theorem ofFlag_ne_run (name : String) (r : Request) : ofFlag name ≠ .run r := by
  unfold ofFlag
  split
  next => exact nofun
  next => exact nofun
  next =>
      split
      next => exact nofun
      next => split <;> exact nofun

/-- An argument that settles what the tool does asks for no run. -/
theorem take_error_ne_run {c : Command} (h : take tool g a = .error c) (r : Request) :
    c ≠ .run r := by
  cases a with
  | path p =>
      simp only [take] at h
      split at h <;> cases h
      exact nofun
  | config value =>
      simp only [take] at h
      split at h <;> cases h
      exact nofun
  | flag name =>
      simp only [take] at h
      split at h
      next =>
          split at h <;> cases h
          exact nofun
      next =>
          cases h
          exact ofFlag_ne_run name r

/-- What was taken are the paths in their order, the settings file, and the question for data. -/
theorem foldlM_take_eq_ok (h : as.foldlM (take tool) g = .ok g') :
    g'.paths = g.paths ++ as.filterMap path? ∧
      g'.config = g.config.or (as.findSome? config?) ∧
      g'.json = (g.json || decide (.flag "--json" ∈ as)) := by
  induction as generalizing g with
  | nil =>
      obtain rfl := Except.ok.inj h
      simp
  | cons a as ih =>
      rw [List.foldlM_cons] at h
      cases htake : take tool g a with
      | error c =>
          rw [htake] at h
          cases h
      | ok g₁ =>
          rw [htake] at h
          obtain ⟨hpaths, hconfig, hjson⟩ := ih h
          rcases take_eq_ok htake with ⟨p, rfl, rfl⟩ | ⟨value, rfl, hnone, rfl⟩ | ⟨rfl, hno, rfl⟩
          · simp [hpaths, hconfig, hjson, path?, config?, List.findSome?_cons]
          · simp [hpaths, hconfig, hjson, hnone, path?, config?, List.filterMap_cons,
              List.findSome?_cons]
          · simp [hpaths, hconfig, hjson, path?, config?, List.filterMap_cons, List.findSome?_cons]

theorem foldlM_take_error_ne_run {c : Command} (h : as.foldlM (take tool) g = .error c)
    (r : Request) : c ≠ .run r := by
  induction as generalizing g with
  | nil => cases h
  | cons a as ih =>
      rw [List.foldlM_cons] at h
      cases htake : take tool g a with
      | error c' =>
          rw [htake] at h
          obtain rfl := Except.error.inj h
          exact take_error_ne_run htake r
      | ok g₁ =>
          rw [htake] at h
          exact ih h

/-- What arguments give, wherever they stand. -/
def given (args : List String) : Given where
  paths := paths args
  config := configPath? args
  json := decide (AskJson args)

/-- A run that arguments ask for is the one that they give. -/
theorem complete_given {r : Request} (h : ofArguments tool args = .run r) :
    (given args).complete tool = .run r := by
  rw [ofArguments, parse_eq_takeAll, takeAll] at h
  cases htaken : (all args).foldlM (take tool) {} with
  | error c =>
      rw [htaken] at h
      exact absurd h (foldlM_take_error_ne_run htaken r)
  | ok g =>
      rw [htaken] at h
      obtain ⟨hpaths, hconfig, hjson⟩ := foldlM_take_eq_ok htaken
      have hgiven : g = given args := by
        cases g
        simp only [given, Given.mk.injEq]
        exact ⟨hpaths, hconfig, hjson⟩
      exact hgiven ▸ h

theorem complete_eq_run {r : Request} (h : g.complete tool = .run r) :
    ∃ job, g.job? tool = some job ∧ r = { job, config := g.config } := by
  unfold Given.complete at h
  split at h
  next job hjob => exact ⟨job, hjob, (Command.run.inj h).symm⟩
  next => cases h

theorem job?_convert {job : Job} (h : g.job? .convert = some job) :
    ∃ listing output, g.paths = [listing, output] ∧ job = .convert listing output := by
  unfold Given.job? at h
  split at h
  next => cases h
  next =>
      split at h
      next listing output _ hpaths => exact ⟨listing, output, hpaths, (Option.some.inj h).symm⟩
      next htool _ => cases htool
      next => cases h

theorem job?_report {job : Job} (h : g.job? .report = some job) :
    ∃ source listing output, g.paths = [source, listing, output] ∧
      job = .report source listing output g.json := by
  unfold Given.job? at h
  split at h
  next => cases h
  next =>
      split at h
      next htool _ => cases htool
      next source listing output _ hpaths =>
          exact ⟨source, listing, output, hpaths, (Option.some.inj h).symm⟩
      next => cases h

/-- What a run of the first tool is asked. -/
theorem ofArguments_convert {r : Request} (h : ofArguments .convert args = .run r) :
    ∃ listing output, paths args = [listing, output] ∧
      r = { job := .convert listing output, config := configPath? args } := by
  obtain ⟨job, hjob, rfl⟩ := complete_eq_run (complete_given h)
  obtain ⟨listing, output, hpaths, rfl⟩ := job?_convert hjob
  exact ⟨listing, output, hpaths, rfl⟩

theorem ofArguments_report {r : Request} (h : ofArguments .report args = .run r) :
    ∃ source listing output, paths args = [source, listing, output] ∧
      r = { job := .report source listing output (given args).json
            config := configPath? args } := by
  obtain ⟨job, hjob, rfl⟩ := complete_eq_run (complete_given h)
  obtain ⟨source, listing, output, hpaths, rfl⟩ := job?_report hjob
  exact ⟨source, listing, output, hpaths, rfl⟩

/-! ## Asking for data -/

/-- The command with the question for data answered. -/
def setJson (json : Bool) : Command → Command
  | .run { job := .report source listing output _, config := path? } =>
    .run { job := .report source listing output json, config := path? }
  | c => c

theorem setJson_eq_self {json : Bool} {c : Command} (h : ∀ r, c ≠ .run r) : setJson json c = c := by
  cases c with
  | run r => exact absurd rfl (h r)
  | _ => rfl

theorem take_setJson (json : Bool) (h : a ≠ .flag "--json") :
    take tool { g with json } a = (take tool g a).map ({ · with json }) := by
  cases a with
  | path p =>
      simp only [take]
      split <;> rfl
  | config value =>
      simp only [take]
      split <;> rfl
  | flag name =>
      have hname : ¬ (name = "--json" ∧ tool = .report) := fun hn => h (by rw [hn.1])
      simp only [take, if_neg hname]
      rfl

theorem foldlM_take_setJson (json : Bool) (h : .flag "--json" ∉ as) :
    as.foldlM (take tool) { g with json } = (as.foldlM (take tool) g).map ({ · with json }) := by
  induction as generalizing g with
  | nil => rfl
  | cons a as ih =>
      have ha : a ≠ .flag "--json" := fun he => h (he ▸ List.mem_cons_self)
      have has : .flag "--json" ∉ as := fun hmem => h (List.mem_cons_of_mem a hmem)
      rw [List.foldlM_cons, List.foldlM_cons, take_setJson json ha]
      cases take tool g a with
      | error c => rfl
      | ok g₁ => exact ih has

theorem complete_setJson (tool : Tool) (g : Given) (json : Bool) :
    { g with json }.complete tool = setJson json (g.complete tool) := by
  rcases g with ⟨gpaths, config, asked⟩
  simp only [Given.complete, Given.job?]
  by_cases hempty : "" ∈ gpaths
  · simp only [if_pos hempty]
    rfl
  · simp only [if_neg hempty]
    cases tool with
    | convert =>
        match gpaths with
        | [] | [_] | [_, _] | _ :: _ :: _ :: _ => rfl
    | report =>
        match gpaths with
        | [] | [_] | [_, _] | [_, _, _] | _ :: _ :: _ :: _ :: _ => rfl

theorem takeAll_setJson (json : Bool) (h : .flag "--json" ∉ as) :
    takeAll tool { g with json } as = setJson json (takeAll tool g as) := by
  rw [takeAll, takeAll, foldlM_take_setJson json h]
  cases hfold : as.foldlM (take tool) g with
  | error c => exact (setJson_eq_self (foldlM_take_error_ne_run hfold)).symm
  | ok g' => exact complete_setJson tool g' json

/-- The flag says the same wherever it stands. -/
theorem takeAll_insert_json {u v : List Argument} (hg : g.json = false)
    (hu : .flag "--json" ∉ u) (hv : .flag "--json" ∉ v) :
    takeAll .report g (u ++ .flag "--json" :: v) = setJson true (takeAll .report g (u ++ v)) := by
  induction u generalizing g with
  | nil =>
      have htake : take .report g (.flag "--json") = .ok { g with json := true } := by
        simp [take, hg]
      rw [List.nil_append, takeAll_cons_of_ok htake, takeAll_setJson true hv, List.nil_append]
  | cons a u ih =>
      have ha : a ≠ .flag "--json" := fun he => hu (he ▸ List.mem_cons_self)
      have hu' : .flag "--json" ∉ u := fun hmem => hu (List.mem_cons_of_mem a hmem)
      cases htake : take .report g a with
      | error c =>
          rw [List.cons_append, List.cons_append, takeAll_cons_of_error htake,
            takeAll_cons_of_error htake, setJson_eq_self (take_error_ne_run htake)]
      | ok g' =>
          have hg' : g'.json = false := by
            rcases take_eq_ok htake with ⟨p, -, rfl⟩ | ⟨value, -, -, rfl⟩ | ⟨rfl, -, -⟩
            · exact hg
            · exact hg
            · exact absurd rfl ha
          rw [List.cons_append, List.cons_append, takeAll_cons_of_ok htake,
            takeAll_cons_of_ok htake, ih hg' hu']

/-- Arguments are cut in two without a change in what they are, unless the cut is behind two hyphens
or between a flag and its value. -/
theorem all_append {before after : List String} (hpaths : "--" ∉ before)
    (hconfig : before.getLast? ≠ some "--config") :
    all (before ++ after) = all before ++ all after := by
  fun_induction all before with
  | case1 => rfl
  | case2 args => exact absurd List.mem_cons_self hpaths
  | case3 value args hflag ih =>
      rw [List.cons_append, List.cons_append, all, if_pos hflag, ← List.cons_append, ih]
      · rfl
      · exact fun hmem => hpaths (List.mem_cons_of_mem _ hmem)
      · exact hconfig
  | case4 value args hflag ih =>
      rw [List.cons_append, List.cons_append, all, if_neg hflag, ih]
      · rfl
      · exact fun hmem => hpaths (List.mem_cons_of_mem _ (List.mem_cons_of_mem _ hmem))
      · cases args with
        | nil => exact nofun
        | cons arg args => exact hconfig
  | case5 arg args hdashes hvalue ih =>
      have hlast : arg = "--config" → args ++ after = [] := by
        rintro rfl
        cases args with
        | nil => exact absurd rfl hconfig
        | cons value args => exact (hvalue value args rfl rfl).elim
      rw [List.cons_append, all_cons hdashes hlast, ih]
      · rfl
      · exact fun hmem => hpaths (List.mem_cons_of_mem _ hmem)
      · cases args with
        | nil => exact nofun
        | cons value args => exact hconfig

theorem ofArguments_insert_json {before after : List String} (hpaths : "--" ∉ before)
    (hconfig : before.getLast? ≠ some "--config") (hjson : ¬ AskJson (before ++ after)) :
    ofArguments .report (before ++ "--json" :: after) =
      setJson true (ofArguments .report (before ++ after)) := by
  rw [AskJson, all_append hpaths hconfig, List.mem_append, not_or] at hjson
  have hflag : all ("--json" :: after) = .flag "--json" :: all after := by
    rw [all_cons (by decide) (fun h => absurd h (by decide))]
    rfl
  rw [ofArguments, ofArguments, parse_eq_takeAll, parse_eq_takeAll, all_append hpaths hconfig,
    all_append hpaths hconfig, hflag, takeAll_insert_json rfl hjson.1 hjson.2]

end Argument
end IrSurvey
