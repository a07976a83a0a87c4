import Kiko.Core.Protocol
import Kiko.Lib.Transition

/-!
# Starting a web job (`web/web_job`)

The store runs one task at a time. Two things say whether one is there, the flag `running` of
the snapshot and the handle of the worker thread, and they do not change at one moment: a worker
clears the flag when its task ends, and its handle stays joinable until someone takes it.

A start call first lets go of a finished worker (`join_finished_worker`), then claims the
snapshot (`begin_task`), then creates the thread (`launch_worker`). Each of these takes the
lock of the store once, so a call is a sequence of such steps (`Pc`), and anything may happen
between two of them. A worker that ends between the first and the second leaves its handle
behind: the flag lets the call claim the snapshot, the handle makes it give up, and what it
gives back is an empty snapshot. `HandleGone` is the condition that this does not happen, and
under it a call that has claimed the snapshot creates its thread (`Inv.step`, `committed_step`).

All threads share one store and take its lock, so between two lock regions the state is any that
the others can make of it. The model has a program counter for each call and nothing for the
worker but the phase it is in: a worker decides nothing, and when it ends is up to it.
-/

set_option autoImplicit false

namespace Kiko
namespace Web

/-! ## The snapshot -/

/-- `WebJobSnapshot`. The note is a type of its own; `progress` are the fields that only reports
    change (counters, route, receive plan, doctor report). The times are left out. -/
structure WebJobSnapshot (ν π : Type) [Inhabited ν] [Inhabited π] where
  kind : String := ""
  running : Bool := false
  activity : String := ""
  code : String := ""
  finished : Bool := false
  failed : Bool := false
  canceled : Bool := false
  error : String := ""
  logs : List String := []
  note : ν := default
  progress : π := default

/-- What a start call is given. -/
inductive Start (ν : Type)
  | send
  | recv
  | doctor
  | note (role : Role) (code : String) (snapshot : ν)

/-- How the task of a worker ends. -/
inductive Ending
  | success (activity : String)
  | failed (what : String)
  | canceled

variable {κ ν π : Type} [DecidableEq κ] [Inhabited ν] [Inhabited π]

def Start.kind : Start ν → String
  | .send => "send"
  | .recv => "recv"
  | .doctor => "doctor"
  | .note .. => "note"

/-- The initializer of a start call, on the snapshot. -/
def Start.prepare : Start ν → WebJobSnapshot ν π → WebJobSnapshot ν π
  | .note role code snapshot, state =>
    { state with
      activity := if role = .sender then "hosting notepad" else "joining notepad"
      code := code
      note := snapshot }
  | _, state => state

namespace WebJobSnapshot

/-- `append_log`, with `max_log_lines_ = 120`. -/
def appendLog (text : String) (state : WebJobSnapshot ν π) : WebJobSnapshot ν π :=
  let lines := ((text.toList.splitOn '\n').map String.ofList).filter (· ≠ "")
  let logs := state.logs ++ lines
  { state with logs := logs.drop (logs.length - 120) }

/-- `set_terminal_state`. -/
def setTerminal (failed canceled : Bool) (error activity : String) (state : WebJobSnapshot ν π) :
    WebJobSnapshot ν π :=
  { state with finished := true, failed, canceled, error, activity }

/-- `Access::finish_success`, `finish_failed` and `finish_canceled`. -/
def finish (ending : Ending) (state : WebJobSnapshot ν π) : WebJobSnapshot ν π :=
  let state := { state with running := false }
  match ending with
  | .success activity =>
    if !state.failed && !state.canceled then state.setTerminal false false "" activity else state
  | .failed what => (state.appendLog ("error: " ++ what)).setTerminal true false what "failed"
  | .canceled => (state.appendLog "canceled").setTerminal false true "" "canceled"

/-- The snapshot `begin_task` starts from. -/
def starting (kind : String) : WebJobSnapshot ν π :=
  { kind, running := true, activity := "starting" }

end WebJobSnapshot

/-! ## The store and its steps

`advance` takes a call through its next lock region. The other labels are a call that begins,
what a worker reports, and the two ends a worker has, of its task and of its thread. -/

/-- Where a call is: the step it takes next, or what it has returned (`none` is `true`). -/
inductive Pc
  | join
  | joining (w : Nat)
  | begin
  | prepare
  | launch
  | reset (error : KikoError)
  | returned (error : Option KikoError)
deriving DecidableEq

/-- A call: of `start_*`, or of `join_finished_worker` alone. -/
structure Call (ν : Type) where
  start : Option (Start ν)
  pc : Pc

inductive Phase
  | unborn
  | working
  | finished
  | exited
deriving DecidableEq

/-- `WebJobStore::Impl`, with the threads. `worker` is the joinable handle. -/
structure Store (κ ν π : Type) [Inhabited ν] [Inhabited π] where
  state : WebJobSnapshot ν π := {}
  cancellation : Option κ := none
  noteRuntime : Option κ := none
  worker : Option Nat := none
  spawned : Nat := 0
  phase : Nat → Phase := fun _ => .unborn
  calls : κ → Option (Call ν) := fun _ => none

inductive Action (κ ν π : Type) [Inhabited ν] [Inhabited π]
  | enter (c : κ) (start : Option (Start ν))
  | advance (c : κ)
  /-- A report of the worker, `cancel`, or a change of the note. -/
  | report (change : WebJobSnapshot ν π → WebJobSnapshot ν π)
  | finish (w : Nat) (ending : Ending)
  | exit (w : Nat)

namespace Store

def pc (s : Store κ ν π) (c : κ) : Option Pc := (s.calls c).map (·.pc)

/-- The call goes on at `pc`. -/
def goto (s : Store κ ν π) (c : κ) (call : Call ν) (pc : Pc) : Store κ ν π :=
  { s with calls := Function.update s.calls c (some { call with pc }) }

/-- `join_finished_worker` has no worker to wait for, or has waited. -/
def joined (s : Store κ ν π) (c : κ) (call : Call ν) : Store κ ν π :=
  s.goto c call (if call.start.isSome then .begin else .returned none)

/-- The snapshot is the call's. -/
def claim (s : Store κ ν π) (c : κ) (start : Start ν) : Store κ ν π :=
  { s with noteRuntime := none, state := .starting start.kind, cancellation := some c }

/-- `begin_task`. -/
def beginTask (s : Store κ ν π) (c : κ) (call : Call ν) (start : Start ν) : Store κ ν π :=
  if s.state.running then
    s.goto c call (.returned (some "another kiko web task is already running"))
  else (s.claim c start).goto c call .prepare

/-- The initializer. -/
def prepare (s : Store κ ν π) (c : κ) (call : Call ν) (start : Start ν) : Store κ ν π :=
  let s := { s with state := start.prepare s.state }
  match start with
  | .note .. => { s with noteRuntime := some c }.goto c call .launch
  | _ => s.goto c call .launch

/-- The constructor of `std::thread`, into the handle. -/
def spawn (s : Store κ ν π) : Store κ ν π :=
  { s with
    worker := some s.spawned
    phase := Function.update s.phase s.spawned .working
    spawned := s.spawned + 1 }

/-- `launch_worker`. -/
def launchWorker (s : Store κ ν π) (c : κ) (call : Call ν) : Store κ ν π :=
  if s.worker.isSome then s.goto c call (.reset "previous web task worker is still active")
  else s.spawn.goto c call (.returned none)

/-- `reset_task`. -/
def resetTask (s : Store κ ν π) (c : κ) (call : Call ν) (error : KikoError) : Store κ ν π :=
  { s with noteRuntime := none, cancellation := none, state := {} }.goto c call
    (.returned (some error))

/-- The next step of a call. -/
def advance (s : Store κ ν π) (c : κ) (call : Call ν) : Option (Store κ ν π) :=
  match call.pc with
  | .join =>
    match s.worker with
    | none => some (s.joined c call)
    | some w =>
      if s.state.running then some (s.joined c call)
      else some ({ s with worker := none }.goto c call (.joining w))
  | .joining w => if s.phase w = .exited then some (s.joined c call) else none
  | .begin => call.start.map (s.beginTask c call)
  | .prepare => call.start.map (s.prepare c call)
  | .launch => some (s.launchWorker c call)
  | .reset error => some (s.resetTask c call error)
  | .returned _ => none

def step (s : Store κ ν π) : Action κ ν π → Option (Store κ ν π)
  | .enter c start =>
    if (s.calls c).isSome then none
    else some { s with calls := Function.update s.calls c (some { start, pc := .join }) }
  | .advance c => (s.calls c).bind (s.advance c)
  | .report change =>
    if (change s.state).running = s.state.running ∧ (change s.state).kind = s.state.kind then
      some { s with state := change s.state }
    else none
  | .finish w ending =>
    if s.phase w = .working then
      some { s with state := s.state.finish ending, phase := Function.update s.phase w .finished }
    else none
  | .exit w =>
    if s.phase w = .finished then some { s with phase := Function.update s.phase w .exited }
    else none

/-! ## What a step does

All ways through the code of a call, as an inductive type with their guards, so that the
invariant is proved by cases on it and the code is unfolded in one lemma. -/

variable {s s' s₁ s₂ : Store κ ν π} {c c' : κ} {call : Call ν} {pc : Pc} {a : Action κ ν π}
  {start : Start ν}

@[simp] theorem goto_state : (s.goto c call pc).state = s.state := rfl
@[simp] theorem goto_worker : (s.goto c call pc).worker = s.worker := rfl
@[simp] theorem goto_phase : (s.goto c call pc).phase = s.phase := rfl

@[simp] theorem goto_pc_self : (s.goto c call pc).pc c = some pc := by
  simp [goto, Store.pc]

theorem goto_pc_ne (h : c' ≠ c) : (s.goto c call pc).pc c' = s.pc c' := by
  simp [goto, Store.pc, Function.update_of_ne h]

@[simp] theorem joined_state : (s.joined c call).state = s.state := rfl

/-- The steps, one for each way through the code of a call. -/
inductive Steps (s : Store κ ν π) : Action κ ν π → Store κ ν π → Prop
  | enter {c : κ} {start : Option (Start ν)} (h : s.calls c = none) :
    Steps s (.enter c start)
      { s with calls := Function.update s.calls c (some { start, pc := .join }) }
  | noWorker {c : κ} {call : Call ν} (hc : s.calls c = some call) (hpc : call.pc = .join) :
    Steps s (.advance c) (s.joined c call)
  | takeWorker {c : κ} {call : Call ν} {w : Nat} (hc : s.calls c = some call)
    (hpc : call.pc = .join) (hr : s.state.running = false) :
    Steps s (.advance c) ({ s with worker := none }.goto c call (.joining w))
  | joinWorker {c : κ} {call : Call ν} {w : Nat} (hc : s.calls c = some call)
    (hpc : call.pc = .joining w) : Steps s (.advance c) (s.joined c call)
  | refuse {c : κ} {call : Call ν} (hc : s.calls c = some call) (hpc : call.pc = .begin)
    (hr : s.state.running = true) :
    Steps s (.advance c)
      (s.goto c call (.returned (some "another kiko web task is already running")))
  | claim {c : κ} {call : Call ν} {start : Start ν} (hc : s.calls c = some call)
    (hpc : call.pc = .begin) (hr : s.state.running = false) :
    Steps s (.advance c) ((s.claim c start).goto c call .prepare)
  | prepare {c : κ} {call : Call ν} {start : Start ν} (hc : s.calls c = some call)
    (hpc : call.pc = .prepare) : Steps s (.advance c) (s.prepare c call start)
  | launch {c : κ} {call : Call ν} (hc : s.calls c = some call) (hpc : call.pc = .launch)
    (hw : s.worker = none) :
    Steps s (.advance c) (s.spawn.goto c call (.returned none))
  | giveUp {c : κ} {call : Call ν} (hc : s.calls c = some call) (hpc : call.pc = .launch)
    (hw : s.worker ≠ none) :
    Steps s (.advance c) (s.goto c call (.reset "previous web task worker is still active"))
  | reset {c : κ} {call : Call ν} {error : KikoError} (hc : s.calls c = some call)
    (hpc : call.pc = .reset error) : Steps s (.advance c) (s.resetTask c call error)
  | report {change : WebJobSnapshot ν π → WebJobSnapshot ν π}
    (hr : (change s.state).running = s.state.running) :
    Steps s (.report change) { s with state := change s.state }
  | finish {w : Nat} {ending : Ending} (hw : s.phase w = .working) :
    Steps s (.finish w ending)
      { s with state := s.state.finish ending, phase := Function.update s.phase w .finished }
  | exit {w : Nat} (hw : s.phase w = .finished) :
    Steps s (.exit w) { s with phase := Function.update s.phase w .exited }

theorem steps_advance (hc : s.calls c = some call) (h : s.advance c call = some s') :
    Steps s (.advance c) s' := by
  unfold advance at h
  split at h
  · rename_i hpc
    split at h
    · cases h
      exact .noWorker hc hpc
    · split at h
      · cases h
        exact .noWorker hc hpc
      · rename_i hr
        cases h
        exact .takeWorker hc hpc (by simpa using hr)
  · rename_i hpc
    split at h
    · cases h
      exact .joinWorker hc hpc
    · cases h
  · rename_i hpc
    obtain ⟨start, -, rfl⟩ := Option.map_eq_some_iff.mp h
    unfold beginTask
    split
    · rename_i hr
      exact .refuse hc hpc hr
    · rename_i hr
      exact .claim hc hpc (by simpa using hr)
  · rename_i hpc
    obtain ⟨start, -, rfl⟩ := Option.map_eq_some_iff.mp h
    exact .prepare hc hpc
  · rename_i hpc
    cases h
    unfold launchWorker
    split
    · rename_i hw
      exact .giveUp hc hpc (Option.isSome_iff_ne_none.mp hw)
    · rename_i hw
      exact .launch hc hpc (by simpa using hw)
  · rename_i hpc
    cases h
    exact .reset hc hpc
  · cases h

theorem steps_of_step (h : s.step a = some s') : Steps s a s' := by
  cases a with
  | enter c start =>
    simp only [step] at h
    split at h
    · cases h
    · rename_i hnone
      cases h
      exact .enter (by simpa using hnone)
  | advance c =>
    obtain ⟨call, hc, h⟩ := Option.bind_eq_some_iff.mp h
    exact steps_advance hc h
  | report change =>
    simp only [step] at h
    split at h
    · rename_i hr
      cases h
      exact .report hr.1
    · cases h
  | finish w ending =>
    simp only [step] at h
    split at h
    · rename_i hw
      cases h
      exact .finish hw
    · cases h
  | exit w =>
    simp only [step] at h
    split at h
    · rename_i hw
      cases h
      exact .exit hw
    · cases h

/-! ## The runs in which no claim meets a handle

At most one call is between its claim and its thread, and while there is one, no worker is at
work and no handle is held. -/

/-- Where `begin_task` is about to claim the snapshot, the last worker has been let go of. -/
def HandleGone (s : Store κ ν π) : Action κ ν π → Prop
  | .advance c => s.pc c = some .begin → s.state.running = false → s.worker = none
  | _ => True

instance (s : Store κ ν π) : (a : Action κ ν π) → Decidable (HandleGone s a)
  | .advance c =>
    inferInstanceAs (Decidable (s.pc c = some .begin → s.state.running = false → s.worker = none))
  | .enter .. => inferInstanceAs (Decidable True)
  | .report _ => inferInstanceAs (Decidable True)
  | .finish .. => inferInstanceAs (Decidable True)
  | .exit _ => inferInstanceAs (Decidable True)

/-- The call has claimed the snapshot and has not created its thread. -/
def Starting (s : Store κ ν π) (c : κ) : Prop := s.pc c = some .prepare ∨ s.pc c = some .launch

structure Inv (s : Store κ ν π) : Prop where
  /-- A claim shows in the flag, and there is no thread to be in its way. -/
  claimed : ∀ c, Starting s c →
    s.state.running = true ∧ s.worker = none ∧ ∀ w, s.phase w ≠ .working
  alone : ∀ c c', Starting s c → Starting s c' → c = c'
  working : ∀ w, s.phase w = .working → s.state.running = true ∧ s.worker = some w
  noReset : ∀ c error, s.pc c ≠ some (.reset error)

omit [DecidableEq κ] in
theorem pc_of_call (hc : s.calls c = some call) : s.pc c = some call.pc := by
  rw [Store.pc, hc]
  rfl

omit [DecidableEq κ] in
theorem Inv.init : Inv ({} : Store κ ν π) where
  claimed := by
    intro c h
    cases h with
    | inl h => cases h
    | inr h => cases h
  alone := by
    intro c c' h
    cases h with
    | inl h => cases h
    | inr h => cases h
  working := by
    intro w h
    cases h
  noReset := by
    intro c error h
    cases h

omit [DecidableEq κ] in
/-- Nothing is marked running: no call has claimed the snapshot and no worker is at work. -/
theorem Inv.idle (h : Inv s) (hr : s.state.running = false) :
    (∀ c, ¬ Starting s c) ∧ ∀ w, s.phase w ≠ .working := by
  constructor
  · intro c hc
    exact absurd ((h.claimed c hc).1.symm.trans hr) (by decide)
  · intro w hw
    exact absurd ((h.working w hw).1.symm.trans hr) (by decide)

omit [DecidableEq κ] in
/-- What a call is not in `prepare` or `launch` for concerns no one. -/
theorem Inv.of_pc (h : Inv s) (hstate : s'.state.running = s.state.running)
    (hworker : s'.worker = s.worker) (hphase : s'.phase = s.phase)
    (hpc : ∀ c', s'.pc c' = s.pc c' ∨ ¬ Starting s' c' ∧ ∀ error, s'.pc c' ≠ some (.reset error)) :
    Inv s' := by
  have hstarting {c' : κ} (hc : Starting s' c') : Starting s c' := by
    obtain heq | ⟨hnot, -⟩ := hpc c'
    · rwa [Starting, heq] at hc
    · exact absurd hc hnot
  refine ⟨?_, ?_, ?_, ?_⟩
  · intro c hc
    rw [hstate, hworker, hphase]
    exact h.claimed c (hstarting hc)
  · intro c c' hc hc'
    exact h.alone c c' (hstarting hc) (hstarting hc')
  · rw [hstate, hworker, hphase]
    exact h.working
  · intro c error
    obtain heq | ⟨-, hnot⟩ := hpc c
    · rw [heq]
      exact h.noReset c error
    · exact hnot error

/-- A call goes on somewhere outside the claim. -/
theorem Inv.goto (h : Inv s) (hpc : pc = .begin ∨ (∃ w, pc = .joining w) ∨ ∃ error, pc = .returned error) :
    Inv (s.goto c call pc) := by
  refine h.of_pc rfl rfl rfl fun c' => ?_
  by_cases hc : c' = c
  · subst hc
    refine .inr ⟨?_, ?_⟩
    · rw [Starting, goto_pc_self]
      obtain rfl | ⟨w, rfl⟩ | ⟨error, rfl⟩ := hpc <;> simp
    · intro error
      rw [goto_pc_self]
      obtain rfl | ⟨w, rfl⟩ | ⟨error, rfl⟩ := hpc <;> simp
  · exact .inl (goto_pc_ne hc)

theorem Inv.joined (h : Inv s) : Inv (s.joined c call) := by
  unfold Store.joined
  split
  · exact h.goto (.inl rfl)
  · exact h.goto (.inr (.inr ⟨none, rfl⟩))

theorem prepare_running : (s.prepare c call start).state.running = s.state.running := by
  unfold Store.prepare
  cases start <;> rfl

theorem prepare_worker : (s.prepare c call start).worker = s.worker := by
  unfold Store.prepare
  cases start <;> rfl

theorem prepare_phase : (s.prepare c call start).phase = s.phase := by
  unfold Store.prepare
  cases start <;> rfl

theorem prepare_pc_self : (s.prepare c call start).pc c = some .launch := by
  unfold Store.prepare
  cases start <;> exact goto_pc_self

theorem prepare_pc_ne (h : c' ≠ c) : (s.prepare c call start).pc c' = s.pc c' := by
  unfold Store.prepare
  cases start <;> exact goto_pc_ne h

/-- **A step whose claim meets no handle.** -/
theorem Inv.step (h : Inv s) (hgone : HandleGone s a) (hs : s.step a = some s') : Inv s' := by
  cases steps_of_step hs with
  | enter hnone =>
    rename_i c start
    refine h.of_pc rfl rfl rfl fun c' => ?_
    by_cases hc : c' = c
    · subst hc
      exact .inr ⟨by simp [Starting, Store.pc], by simp [Store.pc]⟩
    · exact .inl (by simp [Store.pc, Function.update_of_ne hc])
  | noWorker => exact h.joined
  | joinWorker => exact h.joined
  | takeWorker hc hpc hr =>
    obtain ⟨hnone, hidle⟩ := h.idle hr
    refine Inv.goto ⟨?_, h.alone, ?_, h.noReset⟩ (.inr (.inl ⟨_, rfl⟩))
    · intro c' hc'
      exact absurd hc' (hnone c')
    · intro w hw
      exact absurd hw (hidle w)
  | refuse => exact h.goto (.inr (.inr ⟨_, rfl⟩))
  | claim hc hpc hr =>
    rename_i c call start
    obtain ⟨hnone, hidle⟩ := h.idle hr
    have hworker := hgone ((pc_of_call hc).trans (congrArg some hpc)) hr
    -- the call is now the only one that has claimed the snapshot
    have honly {c' : κ} (hc' : Starting ((s.claim c start).goto c call .prepare) c') : c' = c := by
      by_contra hne
      rw [Starting, goto_pc_ne hne] at hc'
      exact hnone c' hc'
    refine ⟨?_, ?_, ?_, ?_⟩
    · intro c' _
      exact ⟨rfl, hworker, hidle⟩
    · intro c₁ c₂ h₁ h₂
      exact (honly h₁).trans (honly h₂).symm
    · intro w hw
      exact absurd hw (hidle w)
    · intro c' error
      by_cases hne : c' = c
      · subst hne
        rw [goto_pc_self]
        simp
      · rw [goto_pc_ne hne]
        exact h.noReset c' error
  | prepare hc hpc =>
    rename_i c call start
    have hpcs := (pc_of_call hc).trans (congrArg some hpc)
    have hstarting {c' : κ} (hc' : Starting (s.prepare c call start) c') : Starting s c' := by
      by_cases hne : c' = c
      · subst hne
        exact .inl hpcs
      · rwa [Starting, prepare_pc_ne hne] at hc'
    refine ⟨?_, ?_, ?_, ?_⟩
    · rw [prepare_running, prepare_worker, prepare_phase]
      intro c' hc'
      exact h.claimed c' (hstarting hc')
    · intro c₁ c₂ h₁ h₂
      exact h.alone c₁ c₂ (hstarting h₁) (hstarting h₂)
    · rw [prepare_running, prepare_worker, prepare_phase]
      exact h.working
    · intro c' error
      by_cases hne : c' = c
      · subst hne
        rw [prepare_pc_self]
        simp
      · rw [prepare_pc_ne hne]
        exact h.noReset c' error
  | launch hc hpc hw =>
    rename_i c call
    have hstarting : Starting s c := .inr ((pc_of_call hc).trans (congrArg some hpc))
    obtain ⟨hr, -, hidle⟩ := h.claimed c hstarting
    have hnone (c' : κ) : ¬ Starting (s.spawn.goto c call (.returned none)) c' := by
      intro hc'
      by_cases hne : c' = c
      · subst hne
        rw [Starting, goto_pc_self] at hc'
        simp at hc'
      · rw [Starting, goto_pc_ne hne] at hc'
        exact hne (h.alone c' c hc' hstarting)
    refine ⟨?_, ?_, ?_, ?_⟩
    · intro c' hc'
      exact absurd hc' (hnone c')
    · intro c₁ c₂ h₁
      exact absurd h₁ (hnone c₁)
    · intro w hw
      by_cases hne : w = s.spawned
      · subst hne
        exact ⟨hr, rfl⟩
      · have hw : Function.update s.phase s.spawned .working w = .working := hw
        rw [Function.update_of_ne hne] at hw
        exact absurd hw (hidle w)
    · intro c' error
      by_cases hne : c' = c
      · subst hne
        rw [goto_pc_self]
        simp
      · rw [goto_pc_ne hne]
        exact h.noReset c' error
  | giveUp hc hpc hw =>
    have hstarting : Starting s _ := .inr ((pc_of_call hc).trans (congrArg some hpc))
    exact absurd (h.claimed _ hstarting).2.1 hw
  | reset hc hpc => exact absurd ((pc_of_call hc).trans (congrArg some hpc)) (h.noReset _ _)
  | report hr => exact h.of_pc hr rfl rfl fun _ => .inl rfl
  | finish hw =>
    rename_i w ending
    obtain ⟨-, hworker⟩ := h.working w hw
    refine ⟨?_, h.alone, ?_, h.noReset⟩
    · intro c hc
      exact absurd hw ((h.claimed c hc).2.2 w)
    · intro w' hw'
      -- only the worker of the handle was at work
      by_cases hne : w' = w
      · subst hne
        simp at hw'
      · simp only [Function.update_of_ne hne] at hw'
        exact absurd (Option.some.inj ((h.working w' hw').2.symm.trans hworker)) hne
  | exit hw =>
    rename_i w
    have hsame {w' : Nat} (hw' : Function.update s.phase w .exited w' = .working) :
        s.phase w' = .working := by
      by_cases hne : w' = w
      · subst hne
        simp at hw'
      · rwa [Function.update_of_ne hne] at hw'
    refine ⟨?_, h.alone, ?_, h.noReset⟩
    · intro c hc
      obtain ⟨hr, hworker, hidle⟩ := h.claimed c hc
      exact ⟨hr, hworker, fun w' hw' => hidle w' (hsame hw')⟩
    · intro w' hw'
      exact h.working w' (hsame hw')

/-! ## What a call returns

From the invariant: a call that has claimed the snapshot finds nobody in its way, so the next
step of it that is taken creates the thread. -/

/-- A call moves by its own steps. -/
theorem step_pc (hs : s.step a = some s') (ha : a ≠ .advance c) (hpc : s.pc c = some pc) :
    s'.pc c = some pc := by
  have hother {c' : κ} (ha' : a = .advance c') : c ≠ c' := by
    rintro rfl
    exact ha ha'
  cases steps_of_step hs with
  | enter hnone =>
    rename_i c' start
    have hne : c ≠ c' := by
      rintro rfl
      rw [Store.pc, hnone] at hpc
      cases hpc
    have hcalls : Function.update s.calls c' (some { start, pc := .join }) c = s.calls c :=
      Function.update_of_ne hne _ _
    exact (congrArg (Option.map Call.pc) hcalls).trans hpc
  | noWorker => exact (goto_pc_ne (hother rfl)).trans hpc
  | takeWorker => exact (goto_pc_ne (hother rfl)).trans hpc
  | joinWorker => exact (goto_pc_ne (hother rfl)).trans hpc
  | refuse => exact (goto_pc_ne (hother rfl)).trans hpc
  | claim => exact (goto_pc_ne (hother rfl)).trans hpc
  | prepare => exact (prepare_pc_ne (hother rfl)).trans hpc
  | launch => exact (goto_pc_ne (hother rfl)).trans hpc
  | giveUp => exact (goto_pc_ne (hother rfl)).trans hpc
  | reset => exact (goto_pc_ne (hother rfl)).trans hpc
  | report => exact hpc
  | finish => exact hpc
  | exit => exact hpc

/-- What a call has returned stays. -/
theorem returned_step {error : Option KikoError} (hs : s.step a = some s')
    (hpc : s.pc c = some (.returned error)) : s'.pc c = some (.returned error) := by
  refine step_pc hs ?_ hpc
  rintro rfl
  obtain ⟨call, hc, hadvance⟩ := Option.bind_eq_some_iff.mp hs
  rw [pc_of_call hc] at hpc
  rw [advance, Option.some.inj hpc] at hadvance
  cases hadvance

/-- The call has claimed the snapshot and returns `true`, or has done so. -/
def Committed (s : Store κ ν π) (c : κ) : Prop := Starting s c ∨ s.pc c = some (.returned none)

/-- **A call that has claimed the snapshot creates its thread.** -/
theorem committed_step (h : Inv s) (hcommitted : Committed s c) (hs : s.step a = some s') :
    Committed s' c := by
  obtain hstarting | hreturned := hcommitted
  swap
  · exact .inr (returned_step hs hreturned)
  by_cases ha : a = .advance c
  swap
  · obtain hpc | hpc := hstarting
    · exact .inl (.inl (step_pc hs ha hpc))
    · exact .inl (.inr (step_pc hs ha hpc))
  subst ha
  -- the two places a claim can be at leave two ways to go on, and one needs a handle
  have hat {call : Call ν} {pc : Pc} (hc : s.calls c = some call) (hpc : call.pc = pc) :
      pc = .prepare ∨ pc = .launch := by
    rw [Starting, pc_of_call hc, hpc] at hstarting
    simpa using hstarting
  cases steps_of_step hs with
  | noWorker hc hpc => simpa using hat hc hpc
  | takeWorker hc hpc => simpa using hat hc hpc
  | joinWorker hc hpc => simpa using hat hc hpc
  | refuse hc hpc => simpa using hat hc hpc
  | claim hc hpc => simpa using hat hc hpc
  | prepare => exact .inl (.inr prepare_pc_self)
  | launch => exact .inr goto_pc_self
  | giveUp _ _ hw => exact absurd (h.claimed c hstarting).2.1 hw
  | reset hc hpc => simpa using hat hc hpc

theorem committed_reach {error : Option KikoError} (h : Inv s₂) (hcommitted : Committed s₂ c)
    (hr : Lts.ReachUnder Store.step HandleGone s₂ s) (hpc : s.pc c = some (.returned error)) :
    error = none := by
  have hboth : Inv s ∧ Committed s c := by
    refine hr.invariant (I := fun s => Inv s ∧ Committed s c) ⟨h, hcommitted⟩ ?_
    intro s s' a hi hgone hs
    exact ⟨hi.1.step hgone hs, committed_step hi.1 hi.2 hs⟩
  obtain (hat | hat) | hat := hboth.2
  · rw [hat] at hpc
    cases hpc
  · rw [hat] at hpc
    cases hpc
  · exact (Pc.returned.inj (Option.some.inj (hat.symm.trans hpc))).symm

/-- **Starting a job is atomic**, in every run in which no claim meets a handle: no step of a call
that returns `false` changes the snapshot, and a call returns `true` exactly when nothing is
marked running at the moment `begin_task` takes the lock. -/
theorem start_atomic {error : Option KikoError}
    (h₁ : Lts.ReachUnder Store.step HandleGone ({} : Store κ ν π) s₁)
    (hgone : HandleGone s₁ (.advance c)) (hs : s₁.step (.advance c) = some s₂)
    (h₂ : Lts.ReachUnder Store.step HandleGone s₂ s) (hpc : s.pc c = some (.returned error)) :
    (error ≠ none → s₂.state = s₁.state) ∧
      (s₁.pc c = some .begin → (error = none ↔ s₁.state.running = false)) := by
  have hinv₁ : Inv s₁ := h₁.invariant .init fun hi hg hs => hi.step hg hs
  have hinv₂ : Inv s₂ := hinv₁.step hgone hs
  have hat {call : Call ν} {pc : Pc} (hc : s₁.calls c = some call) (hcall : call.pc = pc)
      (hbegin : s₁.pc c = some .begin) : pc = .begin := by
    rw [pc_of_call hc, hcall] at hbegin
    exact Option.some.inj hbegin
  have htrue (hcommitted : Committed s₂ c) : error = none :=
    committed_reach hinv₂ hcommitted h₂ hpc
  cases steps_of_step hs with
  | noWorker hc hcall => exact ⟨fun _ => rfl, fun hb => by cases hat hc hcall hb⟩
  | takeWorker hc hcall => exact ⟨fun _ => rfl, fun hb => by cases hat hc hcall hb⟩
  | joinWorker hc hcall => exact ⟨fun _ => rfl, fun hb => by cases hat hc hcall hb⟩
  | refuse hc hcall hr =>
    refine ⟨fun _ => rfl, fun _ => ?_⟩
    have hkept : s.pc c = some (.returned (some _)) :=
      h₂.invariant goto_pc_self fun hi _ hs => returned_step hs hi
    cases hpc.symm.trans hkept
    simp [hr]
  | claim hc hcall hr =>
    have herror := htrue (.inl (.inl goto_pc_self))
    exact ⟨fun hne => absurd herror hne, fun _ => by simp [herror, hr]⟩
  | prepare hc hcall =>
    have herror := htrue (.inl (.inr prepare_pc_self))
    exact ⟨fun hne => absurd herror hne, fun hb => by cases hat hc hcall hb⟩
  | launch hc hcall =>
    have herror := htrue (.inr goto_pc_self)
    exact ⟨fun hne => absurd herror hne, fun hb => by cases hat hc hcall hb⟩
  | giveUp hc hcall hw =>
    exact absurd (hinv₁.claimed c (.inr ((pc_of_call hc).trans (congrArg some hcall)))).2.1 hw
  | reset hc hcall =>
    exact absurd ((pc_of_call hc).trans (congrArg some hcall)) (hinv₁.noReset c _)

/-- A doctor run has been started by the call 0 and is still working. -/
def doctorRuns : List (Action Nat Unit Unit) :=
  [.enter 0 (some .doctor), .advance 0, .advance 0, .advance 0, .advance 0]

/-- A second call meets the running task, and is refused. -/
theorem start_atomic_refused :
    ∃ s₁ s₂ : Store Nat Unit Unit, s₁.step (.advance 1) = some s₂ ∧
      s₂.pc 1 = some (.returned (some "another kiko web task is already running")) ∧
      s₂.state = s₁.state ∧ s₁.state.kind = "doctor" := by
  have hprefix : ∃ s₁ : Store Nat Unit Unit,
      Lts.ReachUnder Store.step HandleGone {} s₁ ∧ s₁.pc 1 = some .begin ∧
        s₁.state.running = true ∧ s₁.state.kind = "doctor" ∧
        ∃ s₂, s₁.step (.advance 1) = some s₂ ∧
          s₂.pc 1 = some (.returned (some "another kiko web task is already running")) := by
    refine ⟨_, .of_run (doctorRuns ++ [.enter 1 (some .send), .advance 1]) rfl ?_, rfl, rfl, rfl, _,
      rfl, rfl⟩
    decide
  obtain ⟨s₁, hr, hpc, hrunning, hkind, s₂, hs, hreturned⟩ := hprefix
  refine ⟨s₁, s₂, hs, hreturned, ?_, hkind⟩
  refine (start_atomic hr ?_ hs .refl hreturned).1 (by simp)
  intro _ hidle
  exact absurd (hrunning.symm.trans hidle) (by decide)

/-- The worker ends between the two steps of the second call: the call claims the snapshot,
cannot create its thread, and leaves an empty snapshot where the doctor's was. -/
theorem start_loses_snapshot :
    ∃ s s' : Store Nat Unit Unit, Lts.Reach Store.step {} s ∧
      s.pc 1 = some .begin ∧ s.state.running = false ∧
      s.state.kind = "doctor" ∧ s.state.activity = "doctor complete" ∧
      Lts.run Store.step s [.advance 1, .advance 1, .advance 1, .advance 1] = some s' ∧
      s'.pc 1 = some (.returned (some "previous web task worker is still active")) ∧
      s'.state = {} := by
  refine ⟨_, _, .of_run (doctorRuns ++ [.enter 1 (some .send), .advance 1,
    .finish 0 (.success "doctor complete")]) rfl, rfl, rfl, rfl, rfl, rfl, rfl, rfl⟩

end Store

end Web
end Kiko
