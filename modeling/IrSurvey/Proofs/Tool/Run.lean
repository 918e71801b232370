import IrSurvey.Proofs.Files.Directory
import IrSurvey.Proofs.Tool.Arguments
import IrSurvey.Tool.Run

/-!
A run leaves one file behind, or none if it fails. What the file holds is worked out from the texts
that were read before, and does not depend on how the run tells of it.
-/
namespace IrSurvey
open Argument (paths configPath? AskJson setJson)
open Command (ofArguments)

namespace Directory

variable {d : Directory} {path : String}

/-- Whether a file can be written does not depend on what it is to hold. -/
theorem write_eq_error {bytes bytes' : List UInt8} {cause : FileError}
    (h : d.write path bytes = .error cause) : d.write path bytes' = .error cause := by
  unfold write at h ⊢
  split at h
  next => exact h
  next => exact h
  next name =>
      split at h
      next hslash =>
          rw [if_pos hslash]
          exact h
      next => cases h

end Directory

namespace Outcome

variable {p q : Progress} {d : Directory} {a b : Draft}

theorem exitCode_failed (said : List String) (f : Failure) (d : Directory) :
    (failed said f d).exitCode = 1 := rfl

theorem directory_failed (said : List String) (f : Failure) (d : Directory) :
    (failed said f d).directory = d := rfl

/-- A run ends with a failure that leaves the directory alone, or with one file written. -/
theorem ofProgress_cases (p : Progress) (d : Directory) :
    (∃ f, ofProgress p d = failed p.said f d) ∨
    ∃ draft d', p.result = .ok draft ∧ d.Wrote d' draft.path draft.content ∧
      ofProgress p d =
        { exitCode := 0, stdout := unlines (p.said ++ draft.closing), stderr := "",
          directory := d' } := by
  cases hresult : p.result with
  | error f =>
      left
      exact ⟨f, by rw [ofProgress, hresult]⟩
  | ok draft =>
      cases hwrite : d.write draft.path draft.content.toUTF8.toList with
      | error cause =>
          left
          refine ⟨.unwritable draft.what draft.path cause, ?_⟩
          simp only [ofProgress, hresult, hwrite]
      | ok d' =>
          right
          refine ⟨draft, d', rfl, Directory.wrote_of_write hwrite, ?_⟩
          simp only [ofProgress, hresult, hwrite]

theorem directory_ofProgress (h : (ofProgress p d).exitCode ≠ 0) :
    (ofProgress p d).directory = d := by
  rcases ofProgress_cases p d with ⟨f, hp⟩ | ⟨draft, d', -, -, hp⟩
  · rw [hp, directory_failed]
  · rw [hp] at h
    exact absurd rfl h

theorem ofProgress_eq_zero (h : (ofProgress p d).exitCode = 0) :
    ∃ draft, p.result = .ok draft ∧
      d.Wrote (ofProgress p d).directory draft.path draft.content ∧
      (ofProgress p d).stdout = unlines (p.said ++ draft.closing) := by
  rcases ofProgress_cases p d with ⟨f, hp⟩ | ⟨draft, d', hresult, hwrote, hp⟩
  · rw [hp, exitCode_failed] at h
    cases h
  · rw [hp]
    exact ⟨draft, hresult, hwrote, rfl⟩

theorem ofProgress_of_error {f : Failure} (h : p.result = .error f) :
    ofProgress p d = failed p.said f d := by
  rw [ofProgress, h]

/-- Drafts for the same path are both written or both refused. -/
theorem exitCode_ofProgress_congr (hp : p.result = .ok a) (hq : q.result = .ok b)
    (hpath : a.path = b.path) :
    (ofProgress p d).exitCode = (ofProgress q d).exitCode := by
  simp only [ofProgress, hp, hq, hpath]
  cases ha : d.write b.path a.content.toUTF8.toList with
  | error cause =>
      rw [Directory.write_eq_error ha]
      rfl
  | ok d₁ =>
      cases hb : d.write b.path b.content.toUTF8.toList with
      | error cause =>
          rw [Directory.write_eq_error hb] at ha
          cases ha
      | ok d₂ => rfl

theorem directory_ofProgress_congr (hp : p.result = .ok a) (hq : q.result = .ok b)
    (hpath : a.path = b.path) (hcontent : a.content = b.content) :
    (ofProgress p d).directory = (ofProgress q d).directory := by
  simp only [ofProgress, hp, hq, hpath, hcontent]
  cases d.write b.path b.content.toUTF8.toList <;> rfl

end Outcome

namespace Tool
open Progress

variable {read : ReadFile} {time : String} {args : List String} {d : Directory} {r : Request}

theorem run_of_eq_run {tool : Tool} (h : ofArguments tool args = .run r) :
    tool.run args time d = Outcome.ofProgress (progress d.read time r) d := by
  rw [run, h]

/-! ## What is drafted -/

/-- What is said on the way changes nothing. -/
theorem result_say (line : String) (p : Progress) : (p.say line).result = p.result := rfl

theorem result_note (json : Bool) (line : String) (p : Progress) :
    (note json line p).result = p.result := by
  cases json <;> rfl

theorem result_convert {config : Option String} {listing output : String} {draft : Draft}
    (h : (progress read time { job := .convert listing output, config }).result = .ok draft) :
    ∃ settings text, Settings.loadOrDefault read config = .ok settings ∧
      read.text listing = .ok text ∧ draft.path = output ∧
      draft.content = Code.sourceListing settings.source (Analysis.ofText text).listing := by
  unfold progress at h
  cases hsettings : Settings.loadOrDefault read config with
  | error cause =>
      rw [hsettings] at h
      cases h
  | ok settings =>
      rw [hsettings] at h
      simp only [convertRun, result_say, reading] at h
      cases htext : read.text listing with
      | error cause =>
          rw [htext] at h
          cases h
      | ok text =>
          rw [htext] at h
          obtain rfl := Except.ok.inj h
          exact ⟨settings, text, rfl, rfl, rfl, rfl⟩

/-- The report of a run. -/
def reportDraft (settings : Settings) (time : String) (json : Bool)
    (source listing output code text : String) : Draft where
  what := "report"
  path := output
  content := Report.document code text (Analysis.ofText text) settings.report
    { digest := Sha256.hexDigest text.toUTF8.toList, generatedAt := time }
  closing := reportClosing json (Analysis.ofText text).metrics source listing output

theorem path_reportDraft (settings : Settings) (time : String) (json : Bool)
    (source listing output code text : String) :
    (reportDraft settings time json source listing output code text).path = output := rfl

theorem content_reportDraft (settings : Settings) (time : String) (json : Bool)
    (source listing output code text : String) :
    (reportDraft settings time json source listing output code text).content =
      Report.document code text (Analysis.ofText text) settings.report
        { digest := Sha256.hexDigest text.toUTF8.toList, generatedAt := time } := rfl

/-- How it is told does not decide whether there is a report, nor what it says. -/
theorem result_report (read : ReadFile) (config : Option String)
    (source listing output : String) :
    (∃ f, ∀ time json,
      (progress read time { job := .report source listing output json, config }).result =
        .error f) ∨
    ∃ settings code text, Settings.loadOrDefault read config = .ok settings ∧
      read.text source = .ok code ∧ read.text listing = .ok text ∧
      ∀ time json,
        (progress read time { job := .report source listing output json, config }).result =
          .ok (reportDraft settings time json source listing output code text) := by
  cases hsettings : Settings.loadOrDefault read config with
  | error cause =>
      left
      refine ⟨.settings (config.getD "") cause, fun time json => ?_⟩
      simp only [progress, hsettings]
  | ok settings =>
      cases hcode : read.text source with
      | error cause =>
          left
          refine ⟨.unreadable "original source" source cause, fun time json => ?_⟩
          simp only [progress, hsettings, reportRun, reading, hcode]
      | ok code =>
          cases htext : read.text listing with
          | error cause =>
              left
              refine ⟨.unreadable "IR listing" listing cause, fun time json => ?_⟩
              simp only [progress, hsettings, reportRun, reading, hcode, result_note, htext]
          | ok text =>
              right
              refine ⟨settings, code, text, rfl, rfl, rfl, fun time json => ?_⟩
              simp only [progress, hsettings, reportRun, reading, hcode, result_note, htext]
              rfl

theorem said_report_json (read : ReadFile) (time : String) (config : Option String)
    (source listing output : String) :
    (progress read time { job := .report source listing output true, config }).said = [] := by
  unfold progress
  cases Settings.loadOrDefault read config with
  | error cause => rfl
  | ok settings =>
      simp only [reportRun, reading, note]
      cases read.text source with
      | error cause => rfl
      | ok code =>
          cases read.text listing with
          | error cause => rfl
          | ok text => rfl

/-! ## What is left behind -/

/-- The second file that arguments name holds the source of the first, and nothing else is new. -/
def Converted (args : List String) (d d' : Directory) : Prop :=
  ∃ listing output text settings,
    paths args = [listing, output] ∧ d.Holds listing text ∧
    Settings.loadOrDefault d.read (configPath? args) = .ok settings ∧
    d.Wrote d' output (Code.sourceListing settings.source (Analysis.ofText text).listing)

/-- The third file that arguments name holds the report on the other two, with the digest of the
listing as it lies there, and nothing else is new. -/
def Reported (args : List String) (time : String) (d d' : Directory) : Prop :=
  ∃ source listing output code text bytes settings,
    paths args = [source, listing, output] ∧ d.Holds source code ∧ d.Holds listing text ∧
    d.read listing = .ok bytes ∧
    Settings.loadOrDefault d.read (configPath? args) = .ok settings ∧
    d.Wrote d' output (Report.document code text (Analysis.ofText text) settings.report
      { digest := Sha256.hexDigest bytes, generatedAt := time })

theorem directory_run {tool : Tool} (h : (tool.run args time d).exitCode ≠ 0) :
    (tool.run args time d).directory = d := by
  cases hcommand : ofArguments tool args with
  | run r =>
      rw [run_of_eq_run hcommand] at h ⊢
      exact Outcome.directory_ofProgress h
  | help => rw [run, hcommand]
  | version => rw [run, hcommand]
  | misuse => rw [run, hcommand]

theorem converted_of_run (hcommand : ofArguments .convert args = .run r)
    (h : (Tool.convert.run args time d).exitCode = 0) :
    Converted args d (Tool.convert.run args time d).directory := by
  rw [run_of_eq_run hcommand] at h ⊢
  obtain ⟨listing, output, hpaths, rfl⟩ := Argument.ofArguments_convert hcommand
  obtain ⟨draft, hdraft, hwrote, -⟩ := Outcome.ofProgress_eq_zero h
  obtain ⟨settings, text, hsettings, htext, hpath, hcontent⟩ := result_convert hdraft
  rw [hpath, hcontent] at hwrote
  exact ⟨listing, output, text, settings, hpaths, ReadFile.text_eq_ok_iff.1 htext, hsettings,
    hwrote⟩

theorem reported_of_run (hcommand : ofArguments .report args = .run r)
    (h : (Tool.report.run args time d).exitCode = 0) :
    Reported args time d (Tool.report.run args time d).directory := by
  rw [run_of_eq_run hcommand] at h ⊢
  obtain ⟨source, listing, output, hpaths, rfl⟩ := Argument.ofArguments_report hcommand
  obtain ⟨draft, hdraft, hwrote, -⟩ := Outcome.ofProgress_eq_zero h
  rcases result_report d.read (configPath? args) source listing output with
    ⟨f, hfailed⟩ | ⟨settings, code, text, hsettings, hcode, htext, hresult⟩
  · rw [hfailed] at hdraft
    cases hdraft
  · rw [hresult] at hdraft
    obtain rfl := Except.ok.inj hdraft
    have hlisting := ReadFile.text_eq_ok_iff.1 htext
    exact ⟨source, listing, output, code, text, text.toUTF8.toList, settings, hpaths,
      ReadFile.text_eq_ok_iff.1 hcode, hlisting, hlisting, hsettings, hwrote⟩

/-- A report that is told in data is the same report. -/
theorem outcome_report_json (time time' : String) (d : Directory) (config : Option String)
    (source listing output : String) (json : Bool) :
    let told (time : String) (json : Bool) := Outcome.ofProgress
      (progress d.read time { job := .report source listing output json, config }) d
    (told time' true).exitCode = (told time json).exitCode ∧
      (told time true).directory = (told time json).directory ∧
      ((told time true).exitCode = 0 → ∃ text, d.Holds listing text ∧
        (told time true).stdout = (Analysis.ofText text).metrics.toJson.renderPretty ++ "\n") := by
  intro told
  rcases result_report d.read config source listing output with
    ⟨f, hfailed⟩ | ⟨settings, code, text, -, -, htext, hresult⟩
  · have houtcome (time json) : told time json = Outcome.failed _ f d :=
      Outcome.ofProgress_of_error (hfailed time json)
    refine ⟨?_, ?_, fun hzero => ?_⟩
    · rw [houtcome, houtcome, Outcome.exitCode_failed, Outcome.exitCode_failed]
    · rw [houtcome, houtcome, Outcome.directory_failed, Outcome.directory_failed]
    · rw [houtcome, Outcome.exitCode_failed] at hzero
      cases hzero
  · refine ⟨?_, ?_, fun hzero => ?_⟩
    · apply Outcome.exitCode_ofProgress_congr (hresult _ _) (hresult _ _)
      rw [path_reportDraft, path_reportDraft]
    · apply Outcome.directory_ofProgress_congr (hresult _ _) (hresult _ _)
      · rw [path_reportDraft, path_reportDraft]
      · rw [content_reportDraft, content_reportDraft]
    obtain ⟨draft, hdraft, -, hstdout⟩ := Outcome.ofProgress_eq_zero hzero
    rw [hresult] at hdraft
    obtain rfl := Except.ok.inj hdraft
    refine ⟨text, ReadFile.text_eq_ok_iff.1 htext, ?_⟩
    rw [hstdout, said_report_json]
    simp [Outcome.unlines, reportDraft, reportClosing]

theorem run_insert_json {before after : List String} (hpaths : "--" ∉ before)
    (hconfig : before.getLast? ≠ some "--config") (hjson : ¬ AskJson (before ++ after))
    (time time' : String) (d : Directory) :
    (Tool.report.run (before ++ "--json" :: after) time' d).exitCode =
        (Tool.report.run (before ++ after) time d).exitCode ∧
      (Tool.report.run (before ++ "--json" :: after) time d).directory =
        (Tool.report.run (before ++ after) time d).directory ∧
      ∀ r, ofArguments .report (before ++ after) = .run r →
        (Tool.report.run (before ++ "--json" :: after) time d).exitCode = 0 →
        ∃ source listing output text, paths (before ++ after) = [source, listing, output] ∧
          d.Holds listing text ∧
          (Tool.report.run (before ++ "--json" :: after) time d).stdout =
            (Analysis.ofText text).metrics.toJson.renderPretty ++ "\n" := by
  have hinsert := Argument.ofArguments_insert_json hpaths hconfig hjson
  cases hcommand : ofArguments .report (before ++ after) with
  | run r =>
      obtain ⟨source, listing, output, hfiles, rfl⟩ := Argument.ofArguments_report hcommand
      rw [hcommand] at hinsert
      simp only [run_of_eq_run hcommand, run_of_eq_run hinsert]
      obtain ⟨hcode, hdirectory, hstdout⟩ := outcome_report_json time time' d
        (configPath? (before ++ after)) source listing output
        (Argument.given (before ++ after)).json
      refine ⟨hcode, hdirectory, fun _ _ hzero => ?_⟩
      obtain ⟨text, htext, hout⟩ := hstdout hzero
      exact ⟨source, listing, output, text, hfiles, htext, hout⟩
  | help =>
      rw [hcommand] at hinsert
      simp only [run, hcommand, hinsert, setJson]
      exact ⟨trivial, trivial, nofun⟩
  | version =>
      rw [hcommand] at hinsert
      simp only [run, hcommand, hinsert, setJson]
      exact ⟨trivial, trivial, nofun⟩
  | misuse =>
      rw [hcommand] at hinsert
      simp only [run, hcommand, hinsert, setJson]
      exact ⟨trivial, trivial, nofun⟩

/-- A listing, a source that is not in ASCII, and settings. -/
def threeFiles : Directory where
  files := [
    ("a.ll", "define i32 @f() \x7b\n  ret i32 0\n\x7d\n".toUTF8.toList),
    ("a.c", "é".toUTF8.toList),
    ("s.json", "\x7b\x7d".toUTF8.toList)]

end Tool
end IrSurvey
