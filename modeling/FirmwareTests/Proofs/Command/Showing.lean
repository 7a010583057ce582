import FirmwareTests.Command.Execution
import FirmwareTests.Proofs.Bench.Completion

/-!
# Showing the reports of a run

Showing reports reads all of them, merges their results and writes the summary. A run
does the same with the reports it has relocated, and none of what it does afterwards
touches them: shown again, they give the summary that the run has written.
-/

namespace FirmwareTests
namespace Command

open Bench Console Files Reports

variable {paths : List String} {reports : List Report} {s : Session}

theorem run_get (s : Session) : (get : CommandM Session).run s = (.ok s, s) := rfl

theorem run_logAll (records : List Log.Record) (s : Session) :
    (logAll records).run s = (.ok (), { s with log := s.log ++ records }) := rfl

theorem run_loadAll_cons {path : String} {report : Report}
    (h : Report.load s.files path = .ok report) (paths : List String) :
    (loadAll (path :: paths)).run s =
      (loadAll paths >>= fun reports => pure (report :: reports)).run
        { s with log := s.log ++ mismatchRecords path report } := by
  rw [loadAll]
  refine (run_bind_ok (run_get s)).trans ?_
  rw [h]
  exact run_bind_ok (run_logAll _ s)

/-- Reports that all load are read in their order, and only the log tells that they were. -/
theorem run_loadAll {files : Files.FileSystem}
    (h : List.Forall₂ (fun path report => Report.load files path = .ok report) paths reports)
    (hfiles : s.files = files) :
    ∃ log, (loadAll paths).run s = (.ok reports, { s with log := log }) := by
  induction h generalizing s with
  | nil => exact ⟨s.log, rfl⟩
  | @cons path report paths reports hload _ ih =>
    rw [← hfiles] at hload
    rw [run_loadAll_cons hload]
    obtain ⟨log, hrest⟩ := @ih { s with log := s.log ++ mismatchRecords path report } hfiles
    exact ⟨log, run_bind_ok hrest⟩

/-- Reports that all load are summarised without fault where output is unlimited. -/
theorem run_summarise {files : Files.FileSystem} {results : ResultSet}
    (h : List.Forall₂ (fun path report => Report.load files path = .ok report) paths reports)
    (hresults : results = .mergeAll (reports.map Report.results)) (hfiles : s.files = files)
    (hterminal : s.terminal.Unlimited) :
    ∃ s', (summarise paths).run s = (.ok (), s') ∧ s'.printed = s.printed ∧
      s'.terminal.sink.received =
        s.terminal.sink.received ++ summaryBytes s.terminal.coloured results := by
  obtain ⟨log, hload⟩ := run_loadAll h hfiles
  obtain ⟨terminal, hwrite, -⟩ := hterminal.exists_writeSummary results
  refine ⟨{ s with log := log, terminal := terminal }, ?_, rfl, received_writeSummary hwrite⟩
  rw [summarise]
  refine (run_bind_ok hload).trans ((run_bind_ok (run_get _)).trans ?_)
  rw [← hresults, hwrite]
  rfl

theorem unlimited_startSession {input : ProcessInput} (coloured : Bool)
    (hwritable : input.outputIsFull = false) :
    (startSession input coloured).terminal.Unlimited :=
  ⟨by simp [startSession, hwritable], rfl⟩

theorem executeInvocation_summarise {input : ProcessInput} {results : ResultSet}
    (settings : Settings)
    (h : List.Forall₂ (fun path report => Report.load input.files path = .ok report)
      paths reports)
    (hresults : results = .mergeAll (reports.map Report.results))
    (hwritable : input.outputIsFull = false) :
    (executeInvocation input ⟨settings, .summarise paths⟩).code = .success ∧
      (executeInvocation input ⟨settings, .summarise paths⟩).output =
        summaryBytes (isColoured input.environment settings.colour) results := by
  have hterminal :=
    unlimited_startSession (isColoured input.environment settings.colour) hwritable
  obtain ⟨s', hrun, hprinted, hreceived⟩ := run_summarise h hresults rfl hterminal
  have hperform : (perform input ⟨settings, .summarise paths⟩).run
      (startSession input (isColoured input.environment settings.colour)) = (.ok (), s') := hrun
  rw [executeInvocation]
  simp only [hperform, hwritable, hprinted, hreceived]
  exact ⟨trivial, rfl⟩

/-- Shown in a process that finds the files a run has left, has the colours of its terminal
and can write, the reports that the run has relocated give what the run has written. -/
theorem executeInvocation_relocatedReports {launch : Launcher} {c : Config} {s s' : Session}
    {summary : RunSummary} {input : ProcessInput} {settings : Settings}
    (h : (run launch c).run s = (.ok summary, s')) (hfiles : input.files = s'.files)
    (hwritable : input.outputIsFull = false)
    (hcolour : isColoured input.environment settings.colour = s.terminal.coloured) :
    let shown := executeInvocation input
      ⟨settings, .summarise (summary.reports.map c.relocatedReport)⟩
    shown.code.number = 0 ∧
      s'.terminal.sink.received = s.terminal.sink.received ++ shown.output := by
  obtain ⟨next, hperform, hshows, rfl⟩ := run_eq_ok h
  obtain ⟨staged, settled, -, -, hclosing, hreports, hterminal⟩ :=
    performAll_sequence_eq_none hperform
  obtain ⟨-, hloads, tally, hwrite⟩ := closing_summarised hclosing hreports
  rw [hterminal] at hwrite
  have hpaths : List.Forall₂ (fun path report => Report.load input.files path = .ok report)
      ((next.reports.map Prod.fst).map c.relocatedReport) (next.reports.map Prod.snd) := by
    rw [hfiles, hshows.files, List.map_map, List.forall₂_map_left_iff, List.forall₂_map_right_iff]
    exact List.forall₂_same.2 hloads
  have hmerged : next.merged =
      .mergeAll ((next.reports.map Prod.snd).map Report.results) := by
    rw [RunState.merged, List.map_map]
    rfl
  obtain ⟨hcode, houtput⟩ := executeInvocation_summarise settings hpaths hmerged hwritable
  refine ⟨by rw [hcode]; rfl, ?_⟩
  rw [houtput, hcolour, hshows.terminal]
  exact received_writeSummary hwrite

/-- The one report of a run of the small workspace, shown again. -/
theorem executeInvocation_relocatedReports_hosted : ∃ s',
    (run (launchScript reportScript) sampleConfig).run hostedSession =
        (.ok ⟨⟨1, 0⟩, [.ia32]⟩, s') ∧
      let shown := executeInvocation ⟨[], [], s'.files, launchScript reportScript, false⟩
        ⟨.none, .summarise [sampleConfig.relocatedReport .ia32]⟩
      shown.code.number = 0 ∧
        s'.terminal.sink.received = hostedSession.terminal.sink.received ++ shown.output := by
  have hsummary : ((run (launchScript reportScript) sampleConfig).run hostedSession).1 =
      .ok ⟨⟨1, 0⟩, [.ia32]⟩ := by
    decide +kernel
  cases h : (run (launchScript reportScript) sampleConfig).run hostedSession with
  | mk result s' =>
    rw [h] at hsummary
    subst hsummary
    exact ⟨s', rfl, executeInvocation_relocatedReports h rfl rfl rfl⟩

end Command
end FirmwareTests
