import Kiko.Lib.Transition

/-!
# Cancelling a transfer (`core/cancellation`, `core/socket`)

`TransferCancellation` keeps a handle of each socket it tracks; a request sets the flag, takes
the handles under the mutex and interrupts them one after the other. A handle leads to the state
a socket shares with it, in which the descriptor is cleared, under a lock of its own, before the
socket is closed.

The world has the descriptors of the operating system in it (`owner`): an interrupt acts on
whoever owns the descriptor at that moment, and a descriptor that was closed may be given to a
new connection. Objects are told from the sockets they hold (`Cell`), since a move hands the
socket on and the handle with it.

A request that finds the list empty has nothing to wait for, so it may return while another one
is still on its way through the list it took: a completed request does not say that every socket
has been interrupted, it says that each has been or is on the list of a request that is not done
(`cancellation_reaches`).

The danger is an interrupt that hits the wrong connection. The descriptor in a handle is a
number, and a number is given out again; only the lock of the socket's own state, under which
the number is cleared before it is given back, keeps an interrupt from using it too late.
`Owned` is what that lock gives, in every interleaving of the calls.
-/

set_option autoImplicit false
set_option linter.unusedSectionVars false

namespace Kiko

/-! ## The world

Each call is a program counter with what it has in hand. `track` and `request` take the mutex of
the list once and the lock of a socket's state once for each socket. -/

/-- `SocketInterruptHandle::State`, with the descriptor of the `asio` socket that goes with it. -/
structure Cell (φ : Type) where
  nativeHandle : Option φ := none
  descriptor : Option φ := none

/-- Where a call of `track` is, and the socket it has found open and the one it has taken the
handle of. -/
inductive TrackPc (ω : Type)
  | idle
  | lock (o : ω) (seen : Nat)
  | done (seen held : Option Nat)
deriving DecidableEq

/-- Where a call of `request` is. A handle of an object that holds nothing is empty. -/
inductive RequestPc
  | idle
  | swap
  | interrupting (rest : List (Option Nat))
  | done
deriving DecidableEq

/-- The request has taken the list. -/
def RequestPc.Swapped (pc : RequestPc) : Prop := pc = .done ∨ ∃ rest, pc = .interrupting rest

theorem RequestPc.Swapped.ne_idle {pc : RequestPc} (h : pc.Swapped) : pc ≠ .idle := by
  obtain rfl | ⟨rest, rfl⟩ := h
  · simp
  · simp

/-- An interrupt: the socket whose handle it came through, the descriptor, and who owned it. -/
structure Hit (φ : Type) where
  cell : Nat
  fd : φ
  owner : Option Nat
deriving DecidableEq

/-- The objects `ω`, the calls `κ` and the descriptors `φ` are whatever they are. -/
structure CancelWorld (ω κ φ : Type) where
  requested : Bool := false
  sockets : List (Option Nat) := []
  tracks : κ → TrackPc ω := fun _ => .idle
  requests : κ → RequestPc := fun _ => .idle
  holds : ω → Option Nat := fun _ => none
  cells : Nat → Cell φ := fun _ => {}
  made : Nat := 0
  owner : φ → Option Nat := fun _ => none
  interrupted : Nat → Bool := fun _ => false
  hits : List (Hit φ) := []

inductive CancelAction (ω κ φ : Type)
  /-- A socket is opened on a descriptor that is free. -/
  | connect (o : ω) (fd : φ)
  | close (o : ω)
  /-- A move; the `close` of an assignment is a step of its own before it. -/
  | move (o o' : ω)
  /-- `track` is called, and looks whether the socket is valid. -/
  | track (t : κ) (o : ω)
  | lock (t : κ)
  /-- `request` is called, and sets the flag. -/
  | request (r : κ)
  | swap (r : κ)
  | interrupt (r : κ)

namespace CancelWorld

variable {ω κ φ : Type} [DecidableEq ω] [DecidableEq κ] [DecidableEq φ]

/-- `TcpSocket::valid`. -/
def IsOpen (s : CancelWorld ω κ φ) (x : Nat) : Prop := (s.cells x).descriptor ≠ none

instance (s : CancelWorld ω κ φ) (x : Nat) : Decidable (s.IsOpen x) :=
  inferInstanceAs (Decidable (_ ≠ _))

/-- `interrupt_native_socket`: `shutdown` acts on the owner of the descriptor. -/
def interruptNative (s : CancelWorld ω κ φ) (x : Nat) (fd : φ) : CancelWorld ω κ φ :=
  { s with
    interrupted := fun y => if s.owner fd = some y then true else s.interrupted y
    hits := s.hits ++ [⟨x, fd, s.owner fd⟩] }

/-- `SocketInterruptHandle::interrupt`. The state is gone only when its socket has been closed. -/
def interruptHandle (s : CancelWorld ω κ φ) : Option Nat → CancelWorld ω κ φ
  | none => s
  | some x => match (s.cells x).nativeHandle with
    | none => s
    | some fd => s.interruptNative x fd

/-- `TcpSocket::close`, under the lock of the state. -/
def closeCell (s : CancelWorld ω κ φ) (x : Nat) : CancelWorld ω κ φ :=
  { s with
    cells := Function.update s.cells x {}
    owner := match (s.cells x).descriptor with
      | none => s.owner
      | some fd => Function.update s.owner fd none }

/-- The constructor from an open `asio` socket. -/
def openCell (s : CancelWorld ω κ φ) (o : ω) (fd : φ) : CancelWorld ω κ φ :=
  { s with
    holds := Function.update s.holds o (some s.made)
    cells := Function.update s.cells s.made ⟨some fd, some fd⟩
    made := s.made + 1
    owner := Function.update s.owner fd (some s.made) }

/-- The part of `track` under the mutex. -/
def trackLocked (s : CancelWorld ω κ φ) (handle : Option Nat) : CancelWorld ω κ φ :=
  if s.requested then s.interruptHandle handle
  else { s with sockets := s.sockets ++ [handle] }

def setTrack (s : CancelWorld ω κ φ) (t : κ) (pc : TrackPc ω) : CancelWorld ω κ φ :=
  { s with tracks := Function.update s.tracks t pc }

def setRequest (s : CancelWorld ω κ φ) (r : κ) (pc : RequestPc) : CancelWorld ω κ φ :=
  { s with requests := Function.update s.requests r pc }

def step (s : CancelWorld ω κ φ) : CancelAction ω κ φ → Option (CancelWorld ω κ φ)
  | .connect o fd =>
    if s.holds o = none ∧ s.owner fd = none then some (s.openCell o fd) else none
  | .close o => match s.holds o with
    | none => some s
    | some x => some (s.closeCell x)
  | .move o o' =>
    if o ≠ o' ∧ (s.holds o').all (fun y => ! s.IsOpen y) then
      some { s with holds := Function.update (Function.update s.holds o' (s.holds o)) o none }
    else none
  | .track t o =>
    if s.tracks t = .idle then
      match s.holds o with
      | none => some (s.setTrack t (.done none none))
      | some x =>
        if s.IsOpen x then some (s.setTrack t (.lock o x))
        else some (s.setTrack t (.done none none))
    else none
  | .lock t => match s.tracks t with
    | .lock o seen =>
      some ((s.trackLocked (s.holds o)).setTrack t (.done (some seen) (s.holds o)))
    | _ => none
  | .request r =>
    if s.requests r = .idle then some ({ s with requested := true }.setRequest r .swap) else none
  | .swap r =>
    if s.requests r = .swap then
      some ({ s with sockets := [] }.setRequest r (.interrupting s.sockets))
    else none
  | .interrupt r => match s.requests r with
    | .interrupting [] => some (s.setRequest r .done)
    | .interrupting (handle :: rest) =>
      some ((s.interruptHandle handle).setRequest r (.interrupting rest))
    | _ => none

variable {s s' : CancelWorld ω κ φ} {x y : Nat} {fd : φ} {a : CancelAction ω κ φ} {o o' : ω}
  {t t' r r' : κ} {pc : TrackPc ω} {rpc : RequestPc}

theorem openCell_cells_ne (h : x ≠ s.made) : (s.openCell o fd).cells x = s.cells x :=
  Function.update_of_ne h _ _

theorem openCell_holds_self : (s.openCell o fd).holds o = some s.made := Function.update_self ..

theorem openCell_holds_ne (h : o' ≠ o) : (s.openCell o fd).holds o' = s.holds o' :=
  Function.update_of_ne h _ _

theorem closeCell_cells_self : (s.closeCell x).cells x = {} := Function.update_self ..

theorem closeCell_cells_ne (h : y ≠ x) : (s.closeCell x).cells y = s.cells y :=
  Function.update_of_ne h _ _

theorem setTrack_self : (s.setTrack t pc).tracks t = pc := Function.update_self ..

theorem setTrack_ne (h : t' ≠ t) : (s.setTrack t pc).tracks t' = s.tracks t' :=
  Function.update_of_ne h _ _

theorem setRequest_self : (s.setRequest r rpc).requests r = rpc := Function.update_self ..

theorem setRequest_ne (h : r' ≠ r) : (s.setRequest r rpc).requests r' = s.requests r' :=
  Function.update_of_ne h _ _

/-! ## Descriptors and their owners

A handle with a descriptor leads to a socket that is open and owns it. Every action keeps that,
also those that open, close or move sockets. -/

/-- The descriptor a handle leads to is that of its socket, and the system agrees. -/
structure Owned (s : CancelWorld ω κ φ) : Prop where
  native : ∀ x, (s.cells x).nativeHandle = (s.cells x).descriptor
  owner : ∀ x fd, s.owner fd = some x ↔ (s.cells x).descriptor = some fd
  fresh : ∀ x, s.made ≤ x → (s.cells x).descriptor = none
  hits : ∀ hit ∈ s.hits, hit.owner = some hit.cell

theorem Owned.init : Owned ({} : CancelWorld ω κ φ) where
  native := by
    intro x
    rfl
  owner := by
    intro x fd
    constructor
    · intro h
      cases h
    · intro h
      cases h
  fresh := by
    intro x _
    rfl
  hits := by
    intro hit h
    cases h

/-- What the descriptors do not depend on may change. -/
theorem Owned.of_eq (h : Owned s) (hcells : s'.cells = s.cells) (howner : s'.owner = s.owner)
    (hmade : s'.made = s.made) (hhits : s'.hits = s.hits) : Owned s' := by
  refine ⟨?_, ?_, ?_, ?_⟩
  · rw [hcells]
    exact h.native
  · rw [hcells, howner]
    exact h.owner
  · rw [hcells, hmade]
    exact h.fresh
  · rw [hhits]
    exact h.hits

/-- **An interrupt acts on the socket its handle belongs to.** -/
theorem Owned.interruptHandle (h : Owned s) (handle : Option Nat) :
    Owned (s.interruptHandle handle) := by
  cases handle with
  | none => exact h
  | some x =>
    unfold CancelWorld.interruptHandle
    dsimp only
    cases hnative : (s.cells x).nativeHandle with
    | none => exact h
    | some fd =>
      have howner : s.owner fd = some x := by
        rw [h.owner, ← h.native, hnative]
      refine ⟨h.native, h.owner, h.fresh, ?_⟩
      intro hit hmem
      obtain hmem | hmem := List.mem_append.mp hmem
      · exact h.hits hit hmem
      · obtain rfl := List.mem_singleton.mp hmem
        exact howner

theorem Owned.closeCell (h : Owned s) (x : Nat) : Owned (s.closeCell x) := by
  refine ⟨?_, ?_, ?_, h.hits⟩
  · intro y
    by_cases hy : y = x
    · subst hy
      simp [CancelWorld.closeCell]
    · simpa [CancelWorld.closeCell, Function.update_of_ne hy] using h.native y
  · intro y fd
    have hy := h.owner y fd
    have hx := h.owner x fd
    cases hd : (s.cells x).descriptor with
    | none =>
      by_cases hyx : y = x
      · subst hyx
        simp [CancelWorld.closeCell, hd, hy]
      · simpa [CancelWorld.closeCell, hd, Function.update_of_ne hyx] using hy
    | some fd' =>
      by_cases hyx : y = x
      · subst hyx
        by_cases hfd : fd = fd'
        · simp [CancelWorld.closeCell, hd, hfd]
        · have hne : s.owner fd ≠ some y := by
            rw [ne_eq, hy, hd]
            intro heq
            exact hfd (Option.some.inj heq).symm
          simpa [CancelWorld.closeCell, hd, Function.update_of_ne hfd] using hne
      · by_cases hfd : fd = fd'
        · -- the descriptor was that of `x`, so it is not that of `y`
          subst hfd
          have howner := hx.mpr hd
          have hne : (s.cells y).descriptor ≠ some fd := by
            rw [ne_eq, ← hy, howner]
            intro heq
            exact hyx (Option.some.inj heq).symm
          simpa [CancelWorld.closeCell, hd, Function.update_of_ne hyx] using hne
        · simpa [CancelWorld.closeCell, hd, Function.update_of_ne hyx, Function.update_of_ne hfd]
            using hy
  · intro y hle
    by_cases hyx : y = x
    · subst hyx
      simp [CancelWorld.closeCell]
    · simpa [CancelWorld.closeCell, Function.update_of_ne hyx] using h.fresh y hle

theorem Owned.openCell (h : Owned s) (hfree : s.owner fd = none) : Owned (s.openCell o fd) := by
  have hnew := h.fresh s.made le_rfl
  refine ⟨?_, ?_, ?_, h.hits⟩
  · intro y
    by_cases hy : y = s.made
    · subst hy
      simp [CancelWorld.openCell]
    · simpa [CancelWorld.openCell, Function.update_of_ne hy] using h.native y
  · intro y fd'
    have hy := h.owner y fd'
    by_cases hmade : y = s.made
    · subst hmade
      by_cases hfd : fd' = fd
      · simp [CancelWorld.openCell, hfd]
      · have hne : s.owner fd' ≠ some s.made := by
          rw [ne_eq, hy, hnew]
          simp
        simpa [CancelWorld.openCell, Function.update_of_ne hfd, Ne.symm hfd] using hne
    · by_cases hfd : fd' = fd
      · subst hfd
        rw [hfree] at hy
        simpa [CancelWorld.openCell, Function.update_of_ne hmade, Ne.symm hmade] using hy
      · simpa [CancelWorld.openCell, Function.update_of_ne hmade, Function.update_of_ne hfd] using hy
  · intro y hle
    have hlt : s.made < y := hle
    have hne : y ≠ s.made := hlt.ne'
    simpa [CancelWorld.openCell, Function.update_of_ne hne] using h.fresh y hlt.le

theorem Owned.step (h : Owned s) (hs : s.step a = some s') : Owned s' := by
  cases a with
  -- a descriptor that nobody owns is given to the new socket
  | connect o fd =>
    simp only [CancelWorld.step] at hs
    split at hs
    · rename_i hfree
      cases hs
      exact h.openCell hfree.2
    · cases hs
  -- under the lock of the state the descriptor is cleared before it is given back
  | close o =>
    simp only [CancelWorld.step] at hs
    split at hs
    · cases hs
      exact h
    · cases hs
      exact h.closeCell _
  -- a move hands on the socket and leaves the descriptor with it
  | move o o' =>
    simp only [CancelWorld.step] at hs
    split at hs
    · cases hs
      exact h.of_eq rfl rfl rfl rfl
    · cases hs
  | track t o =>
    simp only [CancelWorld.step] at hs
    split at hs
    · split at hs
      · cases hs
        exact h.of_eq rfl rfl rfl rfl
      · split at hs
        · cases hs
          exact h.of_eq rfl rfl rfl rfl
        · cases hs
          exact h.of_eq rfl rfl rfl rfl
    · cases hs
  | lock t =>
    simp only [CancelWorld.step] at hs
    split at hs
    · rename_i o seen _
      cases hs
      have hlocked : Owned (s.trackLocked (s.holds o)) := by
        unfold trackLocked
        split
        · exact h.interruptHandle _
        · exact h.of_eq rfl rfl rfl rfl
      exact hlocked.of_eq rfl rfl rfl rfl
    · cases hs
  | request r =>
    simp only [CancelWorld.step] at hs
    split at hs
    · cases hs
      exact h.of_eq rfl rfl rfl rfl
    · cases hs
  | swap r =>
    simp only [CancelWorld.step] at hs
    split at hs
    · cases hs
      exact h.of_eq rfl rfl rfl rfl
    · cases hs
  -- an interrupt uses the descriptor under the same lock
  | interrupt r =>
    simp only [CancelWorld.step] at hs
    split at hs
    · cases hs
      exact h.of_eq rfl rfl rfl rfl
    · rename_i handle rest _
      cases hs
      exact (h.interruptHandle handle).of_eq rfl rfl rfl rfl
    · cases hs

/-! ## Tracked sockets and requests

A socket that was tracked has been interrupted, or its handle is on the list, or a request that
is under way holds it. Only under the mutex does a handle pass from the list to a request. -/

/-- The socket has been interrupted, or the list has its handle, or a request that has taken it. -/
def Caught (s : CancelWorld ω κ φ) (x : Nat) : Prop :=
  s.interrupted x = true ∨ some x ∈ s.sockets ∨
    ∃ r rest, s.requests r = .interrupting rest ∧ some x ∈ rest

structure Pending (s : CancelWorld ω κ φ) : Prop where
  flag : ∀ r, s.requests r ≠ .idle → s.requested = true
  drained : ∀ r, RequestPc.Swapped (s.requests r) → s.sockets = []
  reached : ∀ t seen x, s.tracks t = .done seen (some x) → s.IsOpen x → s.Caught x
  held : ∀ o x, s.holds o = some x → x < s.made
  tracked : ∀ t seen x, s.tracks t = .done seen (some x) → x < s.made

theorem Caught.mono (h : s.Caught x) (hinterrupted : s.interrupted x = true → s'.interrupted x = true)
    (hsockets : some x ∈ s.sockets → some x ∈ s'.sockets)
    (hrequests : ∀ r rest, s.requests r = .interrupting rest → s'.requests r = .interrupting rest) :
    s'.Caught x := by
  obtain h | h | ⟨r, rest, hr, h⟩ := h
  · exact .inl (hinterrupted h)
  · exact .inr (.inl (hsockets h))
  · exact .inr (.inr ⟨r, rest, hrequests r rest hr, h⟩)

/-- An interrupt changes what it says and no more. -/
theorem interruptHandle_eq (s : CancelWorld ω κ φ) (handle : Option Nat) :
    ∃ interrupted hits, s.interruptHandle handle = { s with interrupted, hits } ∧
      ∀ y, s.interrupted y = true → interrupted y = true := by
  cases handle with
  | none => exact ⟨s.interrupted, s.hits, rfl, fun _ h => h⟩
  | some x =>
    unfold CancelWorld.interruptHandle
    dsimp only
    cases (s.cells x).nativeHandle with
    | none => exact ⟨s.interrupted, s.hits, rfl, fun _ h => h⟩
    | some fd =>
      refine ⟨_, _, rfl, ?_⟩
      intro y hy
      split
      · rfl
      · exact hy

/-- **The interrupt of an open socket reaches it.** -/
theorem interruptHandle_reaches (h : Owned s) (hopen : s.IsOpen x) :
    (s.interruptHandle (some x)).interrupted x = true := by
  obtain ⟨fd, hfd⟩ := Option.ne_none_iff_exists'.mp hopen
  unfold interruptHandle
  dsimp only
  rw [h.native, hfd]
  exact if_pos ((h.owner x fd).mpr hfd)

theorem Pending.init : Pending ({} : CancelWorld ω κ φ) where
  flag := by
    intro r h
    exact absurd rfl h
  drained := by
    intro r _
    rfl
  reached := by
    intro t seen x h
    cases h
  held := by
    intro o x h
    cases h
  tracked := by
    intro t seen x h
    cases h

theorem Pending.connect (h : Pending s) : Pending (s.openCell o fd) where
  flag := h.flag
  drained := h.drained
  reached := by
    intro t seen x ht hopen
    have hne : x ≠ s.made := (h.tracked t seen x ht).ne
    refine h.reached t seen x ht ?_
    rwa [IsOpen, openCell_cells_ne hne] at hopen
  held := by
    intro o' x ho
    by_cases hne : o' = o
    · subst hne
      rw [openCell_holds_self] at ho
      exact Option.some.inj ho ▸ Nat.lt_succ_self _
    · rw [openCell_holds_ne hne] at ho
      exact Nat.lt_succ_of_lt (h.held o' x ho)
  tracked := by
    intro t seen x ht
    exact Nat.lt_succ_of_lt (h.tracked t seen x ht)

theorem Pending.closeCell (h : Pending s) (y : Nat) : Pending (s.closeCell y) where
  flag := h.flag
  drained := h.drained
  reached := by
    intro t seen x ht hopen
    refine h.reached t seen x ht ?_
    by_cases hne : x = y
    · subst hne
      rw [IsOpen, closeCell_cells_self] at hopen
      exact absurd rfl hopen
    · rwa [IsOpen, closeCell_cells_ne hne] at hopen
  held := h.held
  tracked := h.tracked

theorem Pending.move (h : Pending s) :
    Pending { s with holds := Function.update (Function.update s.holds o' (s.holds o)) o none } where
  flag := h.flag
  drained := h.drained
  reached := h.reached
  held := by
    intro o₁ x ho
    have ho : Function.update (Function.update s.holds o' (s.holds o)) o none o₁ = some x := ho
    by_cases hne : o₁ = o
    · subst hne
      rw [Function.update_self] at ho
      cases ho
    rw [Function.update_of_ne hne] at ho
    by_cases hne' : o₁ = o'
    · subst hne'
      rw [Function.update_self] at ho
      exact h.held o x ho
    · rw [Function.update_of_ne hne'] at ho
      exact h.held o₁ x ho
  tracked := h.tracked

/-- A call of `track` that has not taken a handle. -/
theorem Pending.setTrack (h : Pending s) (hpc : ∀ seen x, pc ≠ .done seen (some x)) :
    Pending (s.setTrack t pc) := by
  have hother {t' : κ} {seen : Option Nat} {x : Nat}
      (ht : (s.setTrack t pc).tracks t' = .done seen (some x)) :
      s.tracks t' = .done seen (some x) := by
    by_cases hne : t' = t
    · subst hne
      rw [setTrack_self] at ht
      exact absurd ht (hpc seen x)
    · rwa [setTrack_ne hne] at ht
  refine ⟨h.flag, h.drained, ?_, h.held, ?_⟩
  · intro t' seen x ht hopen
    exact h.reached t' seen x (hother ht) hopen
  · intro t' seen x ht
    exact h.tracked t' seen x (hother ht)

/-- **Under the mutex a socket is interrupted or its handle put on the list**, and the list has
not been taken. -/
theorem Pending.lock (ho : Owned s) (h : Pending s) (seen : Option Nat) :
    Pending ((s.trackLocked (s.holds o)).setTrack t (.done seen (s.holds o))) := by
  unfold trackLocked
  split
  · obtain ⟨interrupted, hits, heq, hmono⟩ := interruptHandle_eq s (s.holds o)
    have hreaches {x : Nat} (hheld : s.holds o = some x) (hopen : s.IsOpen x) :
        interrupted x = true := by
      have hthere := interruptHandle_reaches ho hopen
      rw [← hheld, heq] at hthere
      exact hthere
    rw [heq]
    refine ⟨h.flag, h.drained, ?_, h.held, ?_⟩
    · intro t' seen' x ht hopen
      by_cases hne : t' = t
      · subst hne
        rw [setTrack_self] at ht
        obtain ⟨-, hheld⟩ := TrackPc.done.inj ht
        exact .inl (hreaches hheld hopen)
      · rw [setTrack_ne hne] at ht
        exact (h.reached t' seen' x ht hopen).mono (hmono x) id fun _ _ hr => hr
    · intro t' seen' x ht
      by_cases hne : t' = t
      · subst hne
        rw [setTrack_self] at ht
        obtain ⟨-, hheld⟩ := TrackPc.done.inj ht
        exact h.held o x hheld
      · rw [setTrack_ne hne] at ht
        exact h.tracked t' seen' x ht
  · rename_i hrequested
    refine ⟨h.flag, ?_, ?_, h.held, ?_⟩
    · intro r hr
      exact absurd (h.flag r hr.ne_idle) hrequested
    · intro t' seen' x ht hopen
      by_cases hne : t' = t
      · subst hne
        rw [setTrack_self] at ht
        obtain ⟨-, hheld⟩ := TrackPc.done.inj ht
        refine .inr (.inl (List.mem_append_right _ ?_))
        exact List.mem_singleton.mpr hheld.symm
      · rw [setTrack_ne hne] at ht
        refine (h.reached t' seen' x ht hopen).mono id ?_ fun _ _ hr => hr
        exact List.mem_append_left _
    · intro t' seen' x ht
      by_cases hne : t' = t
      · subst hne
        rw [setTrack_self] at ht
        obtain ⟨-, hheld⟩ := TrackPc.done.inj ht
        exact h.held o x hheld
      · rw [setTrack_ne hne] at ht
        exact h.tracked t' seen' x ht

theorem Pending.request (h : Pending s) (hr : s.requests r = .idle) :
    Pending ({ s with requested := true }.setRequest r .swap) := by
  refine ⟨fun _ _ => rfl, ?_, ?_, h.held, h.tracked⟩
  · intro r' hr'
    by_cases hne : r' = r
    · subst hne
      rw [setRequest_self] at hr'
      obtain hr' | ⟨rest, hr'⟩ := hr'
      · cases hr'
      · cases hr'
    · rw [setRequest_ne hne] at hr'
      exact h.drained r' hr'
  · intro t seen x ht hopen
    refine (h.reached t seen x ht hopen).mono id id fun r' rest hr' => ?_
    have hne : r' ≠ r := by
      rintro rfl
      rw [hr] at hr'
      cases hr'
    rw [setRequest_ne hne]
    exact hr'

/-- What is on the list moves to the list of the request. -/
theorem Pending.swap (h : Pending s) (hr : s.requests r = .swap) :
    Pending ({ s with sockets := [] }.setRequest r (.interrupting s.sockets)) := by
  have hrequested : s.requested = true := h.flag r (by simp [hr])
  refine ⟨fun _ _ => hrequested, fun _ _ => rfl, ?_, h.held, h.tracked⟩
  intro t seen x ht hopen
  obtain hi | hmem | ⟨r', rest, hr', hmem⟩ := h.reached t seen x ht hopen
  · exact .inl hi
  · exact .inr (.inr ⟨r, s.sockets, setRequest_self, hmem⟩)
  · have hne : r' ≠ r := by
      rintro rfl
      rw [hr] at hr'
      cases hr'
    refine .inr (.inr ⟨r', rest, ?_, hmem⟩)
    rw [setRequest_ne hne]
    exact hr'

/-- A request that has come to the end of its list. -/
theorem Pending.finish (h : Pending s) (hr : s.requests r = .interrupting []) :
    Pending (s.setRequest r .done) := by
  have hswapped : RequestPc.Swapped (s.requests r) := .inr ⟨[], hr⟩
  refine ⟨fun _ _ => h.flag r hswapped.ne_idle, fun _ _ => h.drained r hswapped, ?_, h.held,
    h.tracked⟩
  intro t seen x ht hopen
  obtain hi | hmem | ⟨r', rest, hr', hmem⟩ := h.reached t seen x ht hopen
  · exact .inl hi
  · exact .inr (.inl hmem)
  · have hne : r' ≠ r := by
      rintro rfl
      rw [hr] at hr'
      cases hr'
      cases hmem
    refine .inr (.inr ⟨r', rest, ?_, hmem⟩)
    rw [setRequest_ne hne]
    exact hr'

/-- **A request takes a handle off its list by interrupting its socket.** -/
theorem Pending.interrupt (ho : Owned s) (h : Pending s) {handle : Option Nat}
    {rest : List (Option Nat)} (hr : s.requests r = .interrupting (handle :: rest)) :
    Pending ((s.interruptHandle handle).setRequest r (.interrupting rest)) := by
  have hswapped : RequestPc.Swapped (s.requests r) := .inr ⟨handle :: rest, hr⟩
  have hreaches {x : Nat} (hopen : s.IsOpen x) (heq : some x = handle) :
      (s.interruptHandle handle).interrupted x = true := heq ▸ interruptHandle_reaches ho hopen
  obtain ⟨interrupted, hits, heq, hmono⟩ := interruptHandle_eq s handle
  rw [heq] at hreaches ⊢
  refine ⟨fun _ _ => h.flag r hswapped.ne_idle, fun _ _ => h.drained r hswapped, ?_, h.held,
    h.tracked⟩
  intro t seen x ht hopen
  obtain hi | hmem | ⟨r', rest', hr', hmem⟩ := h.reached t seen x ht hopen
  · exact .inl (hmono x hi)
  · exact .inr (.inl hmem)
  · by_cases hne : r' = r
    · subst hne
      rw [hr] at hr'
      cases hr'
      obtain hhead | hmem := List.mem_cons.mp hmem
      · exact .inl (hreaches hopen hhead)
      · exact .inr (.inr ⟨r', rest, setRequest_self, hmem⟩)
    · refine .inr (.inr ⟨r', rest', ?_, hmem⟩)
      rw [setRequest_ne hne]
      exact hr'

theorem Pending.step (ho : Owned s) (h : Pending s) (hs : s.step a = some s') : Pending s' := by
  cases a with
  | connect o fd =>
    simp only [CancelWorld.step] at hs
    split at hs
    · cases hs
      exact h.connect
    · cases hs
  | close o =>
    simp only [CancelWorld.step] at hs
    split at hs
    · cases hs
      exact h
    · cases hs
      exact h.closeCell _
  | move o o' =>
    simp only [CancelWorld.step] at hs
    split at hs
    · cases hs
      exact h.move
    · cases hs
  -- a call has looked at the socket, and has not taken the mutex yet
  | track t o =>
    simp only [CancelWorld.step] at hs
    split at hs
    · split at hs
      · cases hs
        exact h.setTrack (by simp)
      · split at hs
        · cases hs
          exact h.setTrack (by simp)
        · cases hs
          exact h.setTrack (by simp)
    · cases hs
  | lock t =>
    simp only [CancelWorld.step] at hs
    split at hs
    · cases hs
      exact h.lock ho _
    · cases hs
  | request r =>
    simp only [CancelWorld.step] at hs
    split at hs
    · rename_i hr
      cases hs
      exact h.request hr
    · cases hs
  -- the request takes the whole list, and owes an interrupt to each handle on it
  | swap r =>
    simp only [CancelWorld.step] at hs
    split at hs
    · rename_i hr
      cases hs
      exact h.swap hr
    · cases hs
  -- one handle less is owed, and its socket has been reached
  | interrupt r =>
    simp only [CancelWorld.step] at hs
    split at hs
    · rename_i hr
      cases hs
      exact h.finish hr
    · rename_i hr
      cases hs
      exact h.interrupt ho hr
    · cases hs

/-- **Cancellation reaches every tracked socket and no stranger**, for any number of calls and
every order of their steps. A socket that `track` has found open and taken the handle of, and
that is still open, has been interrupted once a request is done, or it is on the list of one
that is not; and every interrupt acted on the socket its handle belongs to. -/
theorem cancellation_reaches (hr : Lts.Reach CancelWorld.step ({} : CancelWorld ω κ φ) s) :
    (∀ t x r, s.tracks t = .done (some x) (some x) → s.IsOpen x → s.requests r = .done →
      s.interrupted x = true ∨ ∃ r' rest, s.requests r' = .interrupting rest ∧ some x ∈ rest) ∧
    ∀ hit ∈ s.hits, hit.owner = some hit.cell := by
  have hboth : Owned s ∧ Pending s := by
    refine hr.invariant (I := fun s => Owned s ∧ Pending s) ⟨.init, .init⟩ ?_
    intro s s' a hi _ hs
    exact ⟨hi.1.step hs, hi.2.step hi.1 hs⟩
  obtain ⟨ho, h⟩ := hboth
  refine ⟨?_, ho.hits⟩
  intro t x r ht hopen hdone
  obtain hi | hmem | hmem := h.reached t _ x ht hopen
  · exact .inl hi
  · rw [h.drained r (.inl hdone)] at hmem
    cases hmem
  · exact .inr hmem

/-- Two sockets are tracked and a request comes. One is closed, and its descriptor is given to another
connection, before the request gets to it; the other one is interrupted. -/
theorem cancellation_reaches_one :
    ∃ s : CancelWorld Nat Bool Nat, s.requests true = .done ∧ s.IsOpen 1 ∧ s.interrupted 1 = true ∧
      s.owner 7 = some 2 ∧ s.interrupted 2 = false ∧
      s.hits ≠ [] ∧ ∀ hit ∈ s.hits, hit.owner = some hit.cell := by
  have hrun : ∃ s : CancelWorld Nat Bool Nat, Lts.Reach CancelWorld.step {} s ∧
      s.tracks true = .done (some 1) (some 1) ∧ s.IsOpen 1 ∧ s.requests true = .done ∧
      s.requests false = .idle ∧ s.owner 7 = some 2 ∧ s.interrupted 2 = false ∧ s.hits ≠ [] :=
    ⟨_, .of_run [.connect 0 7, .track false 0, .lock false, .connect 1 8, .track true 1, .lock true,
      .request true, .swap true, .close 0, .connect 2 7, .interrupt true, .interrupt true,
      .interrupt true] rfl, rfl, by decide, rfl, rfl, rfl, rfl, by decide⟩
  obtain ⟨s, hr, htrack, hopen, hdone, hidle, howner, hother, hhits⟩ := hrun
  obtain ⟨hreaches, howned⟩ := cancellation_reaches hr
  refine ⟨s, hdone, hopen, ?_, howner, hother, hhits, howned⟩
  -- no other request is on its way through a list
  rcases hreaches true 1 true htrack hopen hdone with hinterrupted | ⟨r', rest, hpc, -⟩
  · exact hinterrupted
  · cases r' with
    | true =>
      rw [hdone] at hpc
      cases hpc
    | false =>
      rw [hidle] at hpc
      cases hpc

/-- A second request is done before the first has begun with the list it took; and a socket that
is moved away while `track` is at the mutex is never put on a list. -/
theorem cancellation_not_at_once :
    (∃ s : CancelWorld Nat Nat Nat, Lts.Reach CancelWorld.step {} s ∧
      s.tracks 0 = .done (some 0) (some 0) ∧ s.IsOpen 0 ∧ s.requests 2 = .done ∧
      s.interrupted 0 = false) ∧
    ∃ s : CancelWorld Nat Nat Nat, Lts.Reach CancelWorld.step {} s ∧
      s.tracks 0 = .done (some 0) none ∧ s.IsOpen 0 ∧ s.requests 1 = .done ∧
      s.interrupted 0 = false :=
  ⟨⟨_, .of_run [.connect 0 7, .track 0 0, .lock 0, .request 1, .swap 1, .request 2, .swap 2,
      .interrupt 2] rfl, rfl, by decide, rfl, rfl⟩,
    ⟨_, .of_run [.connect 0 7, .track 0 0, .move 0 1, .lock 0, .request 1, .swap 1, .interrupt 1,
      .interrupt 1] rfl, rfl, by decide, rfl, rfl⟩⟩

end CancelWorld
end Kiko
