import FirmwareTests.Proofs.Bench.Effects

/-!
# Runs that fail

A run that fails has performed its operations up to one that fails, and nothing after it.
Nothing is written to the terminal before the summary, and until images are deleted every
staged image that the hosts spare is still where it was staged.
-/

namespace FirmwareTests
namespace Bench

open Files Console

def Operation.deletes : Operation → Bool
  | delete _ => true
  | _ => false

/-- The hosts that operations start leave a location as it was. -/
def SparedByHosts (launch : Launcher) (c : Config) (os : List Operation) (r : RunState)
    (location : Location) : Prop :=
  ∀ before a after mid, os = before ++ .start a :: after →
    performAll launch c before r = (none, mid) →
      ((Operation.start a).perform launch c mid).2.files.entryAt? location =
        mid.files.entryAt? location

/-- A run that ends at an operation, behind operations that succeeded. -/
structure EndsAt (launch : Launcher) (c : Config) (s s' : Session) (done : List Operation)
    (o : Operation) (failure : Failure) : Prop where
  /-- The session is as the operations leave it, and the one that fails changes the files
  only when it starts a host. -/
  performed : ∃ r next, performAll launch c done (.initial s) = (none, r) ∧
    o.perform launch c r = (some failure, next) ∧ next.Shows s' ∧
      (o.startsHost = false → next.files = r.files)
  /-- Nothing was written to the terminal before the summary. -/
  unwritten : o ≠ .summarise → o.deletes = false → s'.terminal = s.terminal
  /-- Staged images are there, with the content and the permission of the prebuilt ones. -/
  staged : o.deletes = false → ∀ a, .stage a ∈ done →
    SparedByHosts launch c (done ++ [o]) (.initial s)
      (destination s.files.current (c.stagedImage a)) →
        ∃ content executable,
          s.files.at? (c.sourceImage a) = some (.file content executable) ∧
            s'.files.entryAt? (destination s.files.current (c.stagedImage a)) =
              some (.file content executable)

section

variable {launch : Launcher} {c : Config} {o : Operation} {os : List Operation}
variable {r next : RunState} {failure : Failure} {a : Arch}

theorem exists_first_failure (h : performAll launch c os r = (some failure, next)) :
    ∃ done o rest mid, os = done ++ o :: rest ∧ performAll launch c done r = (none, mid) ∧
      o.perform launch c mid = (some failure, next) := by
  induction os generalizing r with
  | nil => cases h
  | cons o os ih =>
    rw [performAll] at h
    cases hperform : o.perform launch c r with
    | mk failure? mid =>
      rw [hperform] at h
      cases failure? with
      | none =>
        obtain ⟨done, o', rest, last, rfl, hdone, hlast⟩ := ih h
        refine ⟨o :: done, o', rest, last, rfl, ?_, hlast⟩
        exact performAll_cons_eq_none.mpr ⟨mid, hperform, hdone⟩
      | some failure' =>
        cases h
        exact ⟨[], o, os, r, rfl, rfl, hperform⟩

/-! ### Spared locations -/

theorem SparedByHosts.tail {location : Location} {mid : RunState}
    (h : SparedByHosts launch c (o :: os) r location)
    (hperform : o.perform launch c r = (none, mid)) : SparedByHosts launch c os mid location := by
  rintro before a after last rfl hlast
  exact h (o :: before) a after last rfl (performAll_cons_eq_none.mpr ⟨mid, hperform, hlast⟩)

theorem SparedByHosts.of_append {location : Location} {before : List Operation} {mid : RunState}
    (h : SparedByHosts launch c (before ++ os) r location)
    (hbefore : performAll launch c before r = (none, mid)) :
    SparedByHosts launch c os mid location := by
  rintro before' a after last rfl hlast
  refine h (before ++ before') a after last (by simp) ?_
  exact performAll_append_eq_none.mpr ⟨mid, hbefore, hlast⟩

/-- A location that is none of the places of operations and is spared by their hosts keeps
what stands there. -/
theorem SparedByHosts.entryAt?_eq {location : Location}
    (h : SparedByHosts launch c os r location)
    (hplaces : ∀ o ∈ os, ∀ p ∈ o.places, ∀ current, p.location c current ≠ location) :
    (performAll launch c os r).2.files.entryAt? location = r.files.entryAt? location := by
  induction os generalizing r with
  | nil => rfl
  | cons o os ih =>
    obtain ⟨ho, hos⟩ := List.forall_mem_cons.mp hplaces
    have hstep : (o.perform launch c r).2.files.entryAt? location =
        r.files.entryAt? location := by
      cases hstarts : o.startsHost with
      | true =>
        cases o with
        | start a => exact h [] a os r rfl rfl
        | _ => cases hstarts
      | false =>
        refine (changesOnly_perform hstarts).elsewhere location ?_
        intro hmem
        obtain ⟨p, hp, heq⟩ := List.mem_map.mp hmem
        exact ho p hp _ heq
    rw [performAll]
    cases hperform : o.perform launch c r with
    | mk failure? mid =>
      rw [hperform] at hstep
      cases failure? with
      | none => rw [ih (h.tail hperform) hos, hstep]
      | some failure => exact hstep

/-! ### Staged images -/

theorem sequence_eq_stage (a : Arch) : Operation.sequence =
    Operation.sequence.take a.index ++ .stage a :: Operation.sequence.drop (a.index + 1) := by
  cases a <;> rfl

theorem stage_notMem_take (a : Arch) : .stage a ∉ Operation.sequence.take a.index := by
  cases a <;> decide

theorem startsHost_of_mem_take (a : Arch) :
    ∀ o ∈ Operation.sequence.take a.index, o.startsHost = false := by
  cases a <;> decide

theorem deletes_of_mem_drop (a : Arch) : ∀ o ∈ Operation.sequence.drop (a.index + 1),
    .stagedImage a ∈ o.places → o.deletes = true := by
  cases a <;> decide

theorem pairwise_deletes : Operation.sequence.Pairwise fun o o' =>
    o.deletes = true → o'.deletes = true := by
  decide

/-- Before an image is staged no host is started, and until images are deleted it is not
staged again. -/
theorem exists_stage {done rest : List Operation} (h : Operation.sequence = done ++ o :: rest)
    (hdeletes : o.deletes = false) (hstage : .stage a ∈ done) : ∃ before after,
      done = before ++ .stage a :: after ∧ (∀ o' ∈ before, o'.startsHost = false) ∧
        ∀ o' ∈ after ++ [o], .stagedImage a ∉ o'.places := by
  have hsplit := (sequence_eq_stage a).symm.trans h
  -- either the operations that were done reach to where the image is staged, or they end before
  rcases List.append_eq_append_iff.mp hsplit with ⟨more, hdone, hmore⟩ | ⟨more, htake, -⟩
  · cases more with
    | nil =>
      rw [hdone, List.append_nil] at hstage
      exact absurd hstage (stage_notMem_take a)
    | cons first after =>
      rw [List.cons_append] at hmore
      obtain ⟨rfl, hafter⟩ := List.cons.inj hmore
      refine ⟨_, after, hdone, startsHost_of_mem_take a, ?_⟩
      intro o' ho' hplace
      have hlater : o' ∈ Operation.sequence.drop (a.index + 1) := by
        rw [hafter, List.append_cons]
        exact List.mem_append_left rest ho'
      have hdeletes' := deletes_of_mem_drop a o' hlater hplace
      rcases List.mem_append.mp ho' with ho' | ho'
      · have hpairwise := pairwise_deletes
        rw [h, List.pairwise_append] at hpairwise
        have hmem : o' ∈ done := by simp [hdone, ho']
        have ho := hpairwise.2.2 o' hmem o List.mem_cons_self hdeletes'
        rw [hdeletes] at ho
        cases ho
      · rw [List.mem_singleton.mp ho', hdeletes] at hdeletes'
        cases hdeletes'
  · exact absurd (htake ▸ List.mem_append_left more hstage) (stage_notMem_take a)

theorem summarise_notMem {done rest : List Operation}
    (h : Operation.sequence = done ++ o :: rest) (hsummarise : o ≠ .summarise)
    (hdeletes : o.deletes = false) : .summarise ∉ done ++ [o] := by
  have hpairwise : Operation.sequence.Pairwise fun o o' =>
      o = .summarise → o'.deletes = true := by
    decide
  rw [h, List.pairwise_append] at hpairwise
  intro hmem
  rcases List.mem_append.mp hmem with hmem | hmem
  · have ho := hpairwise.2.2 _ hmem o List.mem_cons_self rfl
    rw [hdeletes] at ho
    cases ho
  · exact hsummarise (List.mem_singleton.mp hmem).symm

/-- An image that was staged, and then left alone by operations and hosts, is there as it
was staged. -/
theorem entryAt?_stagedImage {before after : List Operation} {mid staged : RunState}
    (hmid : performAll launch c before r = (none, mid))
    (hbefore : ∀ o ∈ before, o.startsHost = false)
    (hstaged : (Operation.stage a).perform launch c mid = (none, staged))
    (hafter : ∀ o ∈ after, .stagedImage a ∉ o.places)
    (hspared : SparedByHosts launch c after staged
      (destination r.files.current (c.stagedImage a))) :
    ∃ content executable, r.files.at? (c.sourceImage a) = some (.file content executable) ∧
      (performAll launch c after staged).2.files.entryAt?
        (destination r.files.current (c.stagedImage a)) = some (.file content executable) := by
  obtain ⟨files, content, executable, rfl, -, hsource, hput⟩ := perform_stage_eq_none hstaged
  have hchanges := changesOnly_performAll hmid hbefore
  have hcurrent : mid.files.current = r.files.current := hchanges.directories.current
  refine ⟨content, executable, ?_, ?_⟩
  · rw [← hsource]
    exact (at?_performAll (p := .sourceImage a) hmid hbefore
      fun o _ => sourceImage_notMem_places a o).symm
  · rw [hspared.entryAt?_eq]
    · have hat := FileSystem.at?_putFile hput
      rw [FileSystem.at?, (FileSystem.changesOnly_putFile hput).directories.current,
        hcurrent] at hat
      exact hat
    · intro o ho p hp current heq
      rw [Place.location_inj (q := .stagedImage a) heq] at hp
      exact hafter o ho hp

end

/-- A run that fails ends at the first of its operations that fails. A run that does not
fail has performed all of them. -/
theorem run_first_failure {launch : Launcher} {c : Config} {s s' : Session}
    {result : Except Failure RunSummary} (h : (run launch c).run s = (result, s')) :
    match result with
    | .ok _ => ∃ next, performAll launch c Operation.sequence (.initial s) = (none, next) ∧
        next.Shows s'
    | .error failure => ∃ done o rest, Operation.sequence = done ++ o :: rest ∧
        EndsAt launch c s s' done o failure := by
  cases result with
  | ok summary =>
    obtain ⟨next, hperform, hshows, -⟩ := run_eq_ok h
    exact ⟨next, hperform, hshows⟩
  | error failure =>
    obtain ⟨next, hperform, hshows⟩ := run_eq_error h
    obtain ⟨done, o, rest, mid, hsequence, hdone, ho⟩ := exists_first_failure hperform
    have hall : performAll launch c (done ++ [o]) (.initial s) = (some failure, next) := by
      refine performAll_append_eq_some.mpr (.inr ⟨mid, hdone, ?_⟩)
      rw [performAll_singleton, ho]
    refine ⟨done, o, rest, hsequence, ?_, ?_, ?_⟩
    · exact ⟨mid, next, hdone, ho, hshows, fun hstarts => files_perform_eq_some hstarts ho⟩
    · intro hsummarise hdeletes
      rw [hshows.terminal]
      exact terminal_performAll hall (summarise_notMem hsequence hsummarise hdeletes)
    · intro hdeletes a hstage hspared
      obtain ⟨before, after, rfl, hbefore, hafter⟩ := exists_stage hsequence hdeletes hstage
      obtain ⟨mid', hmid', hrest⟩ := performAll_append_eq_none.mp hdone
      obtain ⟨staged, hstaged, hlast⟩ := performAll_cons_eq_none.mp hrest
      rw [List.append_assoc, List.cons_append] at hspared
      have hthere := entryAt?_stagedImage hmid' hbefore hstaged hafter
        ((hspared.of_append hmid').tail hstaged)
      rw [hshows.files]
      have hnext : performAll launch c (after ++ [o]) staged = (some failure, next) := by
        refine performAll_append_eq_some.mpr (.inr ⟨mid, hlast, ?_⟩)
        rw [performAll_singleton, ho]
      rw [hnext] at hthere
      exact hthere

/-- Without test hosts a run ends when it starts the first of them. -/
theorem run_first_failure_no_host : ∃ s',
    (run (fun _ _ _ => .error .notFound) sampleConfig).run sampleSession =
        (.error (.startHost .ia32 "/w/IA32/host" .notFound), s') ∧
      ∃ done o rest, Operation.sequence = done ++ o :: rest ∧
        EndsAt (fun _ _ _ => .error .notFound) sampleConfig sampleSession s' done o
          (.startHost .ia32 "/w/IA32/host" .notFound) := by
  have hfailure : ((run (fun _ _ _ => .error .notFound) sampleConfig).run sampleSession).1 =
      .error (.startHost .ia32 "/w/IA32/host" .notFound) := by
    decide +kernel
  cases h : (run (fun _ _ _ => .error .notFound) sampleConfig).run sampleSession with
  | mk result s' =>
    rw [h] at hfailure
    subst hfailure
    exact ⟨s', rfl, run_first_failure h⟩

end Bench
end FirmwareTests
