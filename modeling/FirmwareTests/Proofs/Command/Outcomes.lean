import FirmwareTests.Proofs.Bench.Outcomes
import FirmwareTests.Proofs.Command.AllOrNothing

/-!
# Outcomes and exit codes

The exit code of a process that runs the bench does not tell which assertions failed. Where
output has room, processes whose hosts do the same but for outcomes end alike: with the same
exit code, and with the same error if there is one.
-/

namespace FirmwareTests
namespace Command

open Bench Console Files

section

variable {input : ProcessInput} {settings : Settings} {c : Config} {failure : Failure}

def firstSession (input : ProcessInput) (settings : Settings) : Session :=
  startSession input (isColoured input.environment settings.colour)

theorem ending_run_of_misconfigured (h : configOf input settings = .error failure) :
    ending input ⟨settings, .run⟩ = .error failure := by
  unfold ending perform runBench
  rw [h]
  rfl

theorem exists_logAll (records : List Log.Record) (s : Session) : ∃ logged,
    (logAll records).run s = (.ok (), logged) ∧ RunState.initial logged = .initial s :=
  ⟨_, run_logAll records s, rfl⟩

theorem ending_run_of_configured (h : configOf input settings = .ok c) :
    ∃ s, RunState.initial s = .initial (firstSession input settings) ∧
      ending input ⟨settings, .run⟩ =
        match ((Bench.run input.launcher c).run s).1 with
        | .error failure => .error (.run failure)
        | .ok _ => .ok () := by
  obtain ⟨logged, hlog, hinitial⟩ := exists_logAll
    [⟨.info, .dispatch, "running unit tests in " ++ FileSystem.shown c.workspace⟩]
    (firstSession input settings)
  refine ⟨logged, hinitial, ?_⟩
  unfold ending perform runBench
  dsimp only
  rw [h]
  dsimp only
  rw [firstSession] at hlog
  rw [run_bind_ok hlog, run_bind_ok (run_get logged)]
  cases hrun : (Bench.run input.launcher c).run logged with
  | mk answer session => cases answer <;> rfl

theorem ends_alike_of_agree {launch : Launcher}
    (h : ∀ c s s', configOf input settings = .ok c →
      RunState.initial s = .initial (firstSession input settings) →
        RunState.initial s' = .initial (firstSession input settings) →
          Agree (fun _ _ => True) ((Bench.run input.launcher c).run s).1
            ((Bench.run launch c).run s').1) :
    ending { input with launcher := launch } ⟨settings, .run⟩ = ending input ⟨settings, .run⟩ ∧
      (executeInvocation { input with launcher := launch } ⟨settings, .run⟩).code =
        (executeInvocation input ⟨settings, .run⟩).code := by
  have hending : ending { input with launcher := launch } ⟨settings, .run⟩ =
      ending input ⟨settings, .run⟩ := by
    cases hconfig : configOf input settings with
    | error failure =>
      have hconfig' : configOf { input with launcher := launch } settings = .error failure :=
        hconfig
      rw [ending_run_of_misconfigured hconfig, ending_run_of_misconfigured hconfig']
    | ok c =>
      have hconfig' : configOf { input with launcher := launch } settings = .ok c := hconfig
      obtain ⟨s, hs, hends⟩ := ending_run_of_configured hconfig
      obtain ⟨s', hs', hends'⟩ := ending_run_of_configured hconfig'
      have hruns := h c s s' hconfig hs hs'
      rw [hends, hends']
      generalize ((Bench.run input.launcher c).run s).1 = result at hruns
      dsimp only
      generalize ((Bench.run launch c).run s').1 = result' at hruns
      cases hruns <;> rfl
  refine ⟨hending, ?_⟩
  rw [code_executeInvocation, code_executeInvocation, hending]

theorem unlimited_firstSession (hwritable : input.outputIsFull = false) :
    (RunState.initial (firstSession input settings)).terminal.Unlimited :=
  unlimited_startSession _ hwritable

/-- Processes whose hosts do the same but for outcomes end alike where output has room: with
the same error, or both without one, and with the same exit code. -/
theorem run_ends_alike {launch : Launcher} (hwritable : input.outputIsFull = false)
    (hhosts : ∀ c, configOf input settings = .ok c → HostsAlike input.launcher launch c
      (firstSession input settings) (firstSession input settings)) :
    ending { input with launcher := launch } ⟨settings, .run⟩ = ending input ⟨settings, .run⟩ ∧
      (executeInvocation { input with launcher := launch } ⟨settings, .run⟩).code =
        (executeInvocation input ⟨settings, .run⟩).code := by
  apply ends_alike_of_agree
  intro c s s' hconfig hs hs'
  have hapart : StatesApart (.initial s) (.initial s') := by
    rw [hs, hs']
    exact ⟨.refl _, rfl, unlimited_firstSession hwritable, unlimited_firstSession hwritable⟩
  have hhosts' : HostsAlike input.launcher launch c s s' := by
    unfold HostsAlike HostsKeep StartsIn
    rw [hs, hs']
    exact hhosts c hconfig
  exact run_outcomesApart hapart hhosts'

/-- So do processes with any hosts that do the same but for the suites that they write: in both
these have the same titles and test cases. -/
theorem run_ends_alike_suites {launch : Launcher} (hwritable : input.outputIsFull = false)
    (hhosts : ∀ c, configOf input settings = .ok c → HostsKeep SuitesApart input.launcher launch c
      (firstSession input settings) (firstSession input settings)) :
    ending { input with launcher := launch } ⟨settings, .run⟩ = ending input ⟨settings, .run⟩ ∧
      (executeInvocation { input with launcher := launch } ⟨settings, .run⟩).code =
        (executeInvocation input ⟨settings, .run⟩).code := by
  apply ends_alike_of_agree
  intro c s s' hconfig hs hs'
  have hterminal : (RunState.initial s).terminal.Unlimited := by
    rw [hs]
    exact unlimited_firstSession hwritable
  have hhosts' : HostsKeep SuitesApart input.launcher launch c s s' := by
    unfold HostsKeep StartsIn
    rw [hs, hs']
    exact hhosts c hconfig
  exact run_suitesApart (hs'.trans hs.symm) hterminal hhosts'

end

def sampleSettings : Settings :=
  { Settings.none with
    workspace := some (Text.bytes sampleConfig.workspace.toList)
    buildDirectory := some sampleConfig.build.directory
    buildTarget := some sampleConfig.build.target
    toolChain := some sampleConfig.build.toolChain }

/-- The host for IA32 writes a suite with one test case, which fails if there is a text. -/
def sampleSuites (name : String) (failure : Option String) (directory : String) :
    Option Reports.WrittenSuite :=
  if directory = sampleConfig.runDirectory .ia32 then
    some ⟨"suite".toList, some ['1'], failure.map fun _ => ['1'],
      [(name.toList, failure.map String.toList)]⟩
  else none

/-- A process in the small workspace whose hosts write such a suite. -/
def suiteInput (name : String) (failure : Option String) : ProcessInput :=
  ⟨[], [], sampleFiles, suiteHosts (sampleSuites name failure), false⟩

/-- Neither a failure whose text looks like markup changes the exit code, nor one of a test case
whose name is refused. -/
theorem run_ends_alike_sampleSuites :
    let code (name : String) (failure : Option String) :=
      (executeInvocation (suiteInput name failure) ⟨sampleSettings, .run⟩).code.number
    code "s.c.a" none = 0 ∧ code "s.c.a" (some "</failure>&") = 0 ∧
      code "s.c" none = 104 ∧ code "s.c" (some "</failure>&") = 104 := by
  have hcode (name : String) : (executeInvocation
      (suiteInput name (some "</failure>&")) ⟨sampleSettings, .run⟩).code =
        (executeInvocation (suiteInput name none) ⟨sampleSettings, .run⟩).code := by
    have hsame := @run_ends_alike (suiteInput name none) sampleSettings
      (suiteHosts (sampleSuites name (some "</failure>&"))) rfl
    refine (hsame fun c _ => hostsAlike_suiteHosts ?_ c _ _).2
    intro directory
    unfold sampleSuites
    split <;> rfl
  have hpassing : (executeInvocation (suiteInput "s.c.a" none)
      ⟨sampleSettings, .run⟩).code.number = 0 := by
    decide +kernel
  have hrefused : (executeInvocation (suiteInput "s.c" none)
      ⟨sampleSettings, .run⟩).code.number = 104 := by
    decide +kernel
  dsimp only
  rw [hcode, hcode]
  exact ⟨hpassing, hpassing, hrefused, hrefused⟩

end Command
end FirmwareTests
