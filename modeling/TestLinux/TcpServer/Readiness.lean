import TestLinux.TcpServer.Pollio
import Mathlib.Data.List.GetD

/-!
# The sockets that `pollio` reads

A `recv` on a socket that has nothing to read blocks the whole server, so the scan of `pollio` must
read only sockets that the `poll` of the same round has reported. For the entries that were in use
when `poll` was called this is so, also after a removal has moved an entry. A client that is
accepted in the round stands in an entry that `poll` has not looked at: its `revents` is whatever
the last owner of the entry has left there.

`reads_reported` says that every `recv` is on a reported socket in every run that places new clients
only in entries without a leftover `POLLIN` (`FreshEntry`). `stale_entry_read` is a run in which a
client disconnects and the next client is read at once, without having been polled.
-/

set_option autoImplicit false
set_option relaxedAutoImplicit false

namespace TestLinux.TcpServer.Pollio

open TestLinux.Runs

/-! ### Entries -/

theorem getD_set {α : Type*} (items : List α) (index other : ℕ) (item default : α) :
    (items.set index item).getD other default =
      if index = other ∧ index < items.length then item else items.getD other default := by
  rw [List.getD_eq_getElem?_getD, List.getElem?_set]
  split_ifs with heq hlt hboth hboth hboth
  · rfl
  · exact absurd ⟨heq, hlt⟩ hboth
  · exact absurd hboth.2 hlt
  · rw [List.getD_eq_default _ _ (heq ▸ Nat.not_lt.mp hlt)]
    rfl
  · exact absurd hboth.1 heq
  · rw [List.getD_eq_getElem?_getD]

/-- An entry in use after `poll`. -/
theorem entry_afterPoll {state : State} {index : ℕ} (hindex : index < state.nfds)
    (hlength : index < state.pfds.length) (ready : ℕ → Bool) :
    (state.afterPoll ready).entry index = state.polled ready (state.entry index) := by
  have hlt : index < ((state.pfds.take state.nfds).map (state.polled ready)).length := by
    rw [List.length_map, List.length_take]
    omega
  rw [State.entry, pfds_afterPoll, List.getD_append _ _ _ _ hlt, List.getD_eq_getElem _ _ hlt,
    List.getElem_map, List.getElem_take, State.entry, List.getD_eq_getElem _ _ hlength]

theorem entry_afterAccept {state : State} (hlength : state.nfds < state.pfds.length)
    (clientfd index : ℕ) :
    (state.afterAccept clientfd).entry index =
      if index = state.nfds then { state.entry state.nfds with fd := clientfd, events := true }
      else state.entry index := by
  change (state.pfds.set state.nfds _).getD index .zero = _
  rw [getD_set]
  by_cases hindex : index = state.nfds
  · rw [if_pos ⟨hindex.symm, hlength⟩, if_pos hindex]
  · rw [if_neg fun hboth ↦ hindex hboth.1.symm, if_neg hindex]
    rfl

theorem entry_remove {state : State} {index : ℕ} (hlength : index < state.pfds.length)
    (other : ℕ) :
    (state.remove index).entry other =
      if other = index then state.entry (state.nfds - 1) else state.entry other := by
  change (state.pfds.set index _).getD other .zero = _
  rw [getD_set]
  by_cases hother : other = index
  · rw [if_pos ⟨hother.symm, hlength⟩, if_pos hother]
  · rw [if_neg fun hboth ↦ hother hboth.1.symm, if_neg hother]
    rfl

/-! ### The invariant -/

/-- A new client is placed in an entry without a leftover `POLLIN`. -/
def FreshEntry (state : State) : Event → Prop
  | .accept (some _) => (state.entry state.nfds).revents = false
  | _ => True

instance decidableFreshEntry (state : State) : ∀ event, Decidable (FreshEntry state event)
  | .accept (some _) => inferInstanceAs (Decidable ((state.entry state.nfds).revents = false))
  | .accept none => isTrue trivial
  | .poll _ => isTrue trivial
  | .recv _ => isTrue trivial
  | .next => isTrue trivial

/-- No client stands for the listening socket. -/
def Apart (state : State) : Prop :=
  ∀ index, 1 ≤ index → index < state.nfds → (state.entry index).fd ≠ state.sockfd

/-- In a round, a client with `POLLIN` in its entry has been reported, and a descriptor that has
been reported still belongs to the same connection or has been closed since. -/
structure Reported (state : State) : Prop where
  entries : ∀ index, 1 ≤ index → index < state.nfds → (state.entry index).revents = true →
    state.reported (state.entry index).fd ≠ none
  same : ∀ fd, state.reported fd ≠ none →
    state.kernel.socket fd = none ∨ state.kernel.socket fd = state.reported fd
  unclosed : state.point = .accept → ∀ fd, state.reported fd ≠ none →
    state.kernel.socket fd ≠ none

theorem apart_start (sockfd : ℕ) : Apart (State.start sockfd) :=
  fun _ hpos hindex ↦ absurd hindex (Nat.not_lt.mpr hpos)

theorem apart_afterPoll {state : State} (hshape : Shape state) (hapart : Apart state)
    (ready : ℕ → Bool) : Apart (state.afterPoll ready) := by
  intro index hpos hindex
  rw [nfds_afterPoll] at hindex
  rw [entry_afterPoll hindex (hshape.lt_length hindex), sockfd_afterPoll]
  exact hapart index hpos hindex

theorem reported_of_afterPoll {state : State} (hshape : Shape state) (hapart : Apart state)
    (ready : ℕ → Bool) : Reported (state.afterPoll ready) := by
  have hopen : ∀ fd, (state.afterPoll ready).reported fd ≠ none →
      (state.afterPoll ready).kernel.socket fd = (state.afterPoll ready).reported fd := by
    intro fd hreported
    rw [kernel_afterPoll]
    rw [reported_afterPoll] at hreported ⊢
    dsimp only at hreported ⊢
    split_ifs at hreported ⊢ with hreports
    · rfl
    · exact absurd rfl hreported
  constructor
  · intro index hpos hindex hrevents
    rw [nfds_afterPoll] at hindex
    have hlength := hshape.lt_length hindex
    rw [entry_afterPoll hindex hlength] at hrevents ⊢
    change (state.afterPoll ready).reported (state.entry index).fd ≠ none
    have hclient := hapart index hpos hindex
    have hmem : state.entry index ∈ state.pfds.take state.nfds := by
      rw [State.entry, List.getD_eq_getElem _ _ hlength]
      exact List.mem_take_iff_getElem.mpr
        ⟨index, Nat.lt_min.mpr ⟨hindex, hlength⟩, rfl⟩
    have hreports : state.reports ready (state.entry index).fd = true := by
      rw [State.reports, List.any_eq_true]
      exact ⟨state.entry index, hmem, by rw [beq_self_eq_true, Bool.true_and, hrevents]⟩
    -- a client is not the listening socket, so it can be readable only if it is open
    have hsocket : (state.kernel.socket (state.entry index).fd).isSome = true := by
      change ((state.entry index).events &&
        state.readable ready (state.entry index).fd) = true at hrevents
      rw [State.readable, Bool.and_eq_true, Bool.and_eq_true, Bool.or_eq_true, beq_iff_eq]
        at hrevents
      exact hrevents.2.2.resolve_left hclient
    rw [reported_afterPoll]
    dsimp only
    rw [if_pos hreports]
    exact Option.isSome_iff_ne_none.mp hsocket
  · intro fd hreported
    exact Or.inr (hopen fd hreported)
  · intro _ fd hreported
    rw [hopen fd hreported]
    exact hreported

theorem apart_afterAccept {state : State} {clientfd : ℕ} (hshape : Shape state)
    (hapart : Apart state) (hne : clientfd ≠ state.sockfd) (hroom : state.nfds < 1024) :
    Apart (state.afterAccept clientfd) := by
  intro index hpos hindex
  change index < state.nfds + 1 at hindex
  change _ ≠ state.sockfd
  rw [entry_afterAccept (by rw [hshape.length_eq]; exact hroom)]
  split_ifs with hlast
  · exact hne
  · exact hapart index hpos (by omega)

theorem reported_afterAccept {state : State} {clientfd : ℕ} (hshape : Shape state)
    (hstate : Reported state) (hpoint : state.point = .accept)
    (hclosed : state.kernel.socket clientfd = none) (hroom : state.nfds < 1024)
    (hfresh : (state.entry state.nfds).revents = false) :
    Reported (state.afterAccept clientfd) := by
  have hlength : state.nfds < state.pfds.length := by
    rw [hshape.length_eq]
    exact hroom
  constructor
  · intro index hpos hindex hrevents
    change index < state.nfds + 1 at hindex
    rw [entry_afterAccept hlength] at hrevents ⊢
    split_ifs at hrevents ⊢ with hlast
    · change (state.entry state.nfds).revents = true at hrevents
      rw [hfresh] at hrevents
      exact absurd hrevents Bool.false_ne_true
    · exact hstate.entries index hpos (by omega) hrevents
  · intro fd hreported
    change state.reported fd ≠ none at hreported
    have hne : fd ≠ clientfd := by
      rintro rfl
      exact hstate.unclosed hpoint fd hreported hclosed
    change Function.update state.kernel.socket clientfd _ fd = none ∨
      Function.update state.kernel.socket clientfd _ fd = state.reported fd
    rw [Function.update_of_ne hne]
    exact hstate.same fd hreported
  · intro hscan
    exact Point.noConfusion hscan

theorem apart_remove {state : State} {index : ℕ} (hshape : Shape state) (hapart : Apart state)
    (hreceives : state.Receives index) : Apart (state.remove index) := by
  obtain ⟨hpoint, hindex, -⟩ := hreceives
  have hpos := hshape.scan_pos index hpoint
  intro other hother hlt
  change other < state.nfds - 1 at hlt
  change _ ≠ state.sockfd
  rw [entry_remove (hshape.lt_length hindex)]
  split_ifs with heq
  · exact hapart (state.nfds - 1) (by omega) (by omega)
  · exact hapart other hother (by omega)

theorem reported_remove {state : State} {index : ℕ} (hshape : Shape state)
    (hstate : Reported state) (hreceives : state.Receives index) :
    Reported (state.remove index) := by
  obtain ⟨hpoint, hindex, -⟩ := hreceives
  have hpos := hshape.scan_pos index hpoint
  have hlength := hshape.lt_length hindex
  constructor
  · intro other hother hlt hrevents
    change other < state.nfds - 1 at hlt
    change state.reported _ ≠ none
    rw [entry_remove hlength] at hrevents ⊢
    split_ifs at hrevents ⊢ with heq
    · exact hstate.entries (state.nfds - 1) (by omega) (by omega) hrevents
    · exact hstate.entries other hother (by omega) hrevents
  · intro fd hreported
    change state.reported fd ≠ none at hreported
    change Function.update state.kernel.socket _ none fd = none ∨
      Function.update state.kernel.socket _ none fd = state.reported fd
    by_cases hfd : fd = (state.entry (state.nfds - 1)).fd
    · rw [hfd, Function.update_self]
      exact Or.inl rfl
    · rw [Function.update_of_ne hfd]
      exact hstate.same fd hreported
  · intro hscan
    exact Point.noConfusion hscan

/-- What holds between two steps: outside of a round nothing is said about reports. -/
structure Polled (state : State) : Prop where
  shape : Shape state
  apart : Apart state
  reported : state.point ≠ .poll → Reported state

/-- Steps of the scan that change neither the array nor the sockets. -/
theorem Polled.advance {state : State} (hstate : Polled state) {index : ℕ}
    (hpoint : state.point = .scan index) (inbox : Inbox) :
    Polled { state with point := .scan (index + 1), inbox := inbox } where
  shape := hstate.shape.advance
  apart := hstate.apart
  reported := fun _ ↦ by
    have hreported := hstate.reported (by rw [hpoint]; exact Point.noConfusion)
    exact { hreported with unclosed := fun hscan ↦ Point.noConfusion hscan }

theorem Polled.toPoll {state : State} (hstate : Polled state) :
    Polled { state with point := .poll } where
  shape := hstate.shape.toPoll
  apart := hstate.apart
  reported := fun hpoint ↦ absurd rfl hpoint

theorem polled_move {state next : State} {event : Event} (hstate : Polled state)
    (hfresh : FreshEntry state event) (hmove : Move state event next) : Polled next := by
  have hshape := shape_move hstate.shape hmove
  cases hmove with
  | interrupted hpoint => exact hstate
  | poll hpoint ready =>
    exact ⟨hshape, apart_afterPoll hstate.shape hstate.apart ready, fun _ ↦
      reported_of_afterPoll hstate.shape hstate.apart ready⟩
  | refused hpoint => exact hstate.toPoll
  | accept hpoint hclosed hne hroom =>
    have hreported := hstate.reported (by rw [hpoint]; exact Point.noConfusion)
    exact ⟨hshape, apart_afterAccept hstate.shape hstate.apart hne hroom, fun _ ↦
      reported_afterAccept hstate.shape hreported hpoint hclosed hroom hfresh⟩
  | data hreceives hpossible => exact hstate.advance hreceives.1 _
  | remove hreceives hanswer hpossible =>
    have hreported := hstate.reported (by rw [hreceives.1]; exact Point.noConfusion)
    exact ⟨hshape, apart_remove hstate.shape hstate.apart hreceives, fun _ ↦
      reported_remove hstate.shape hreported hreceives⟩
  | skip hpoint hindex hunready => exact hstate.advance hpoint _
  | finish hpoint hindex => exact hstate.toPoll

/-! ### Runs -/

/-- Whenever the scan is about to call `recv`, the `poll` of this round has reported the descriptor,
and the connection on it is still the reported one unless it has been closed. Assumes: every
new client is placed in an entry of `pfds` without a leftover `POLLIN`. -/
theorem reads_reported (sockfd : ℕ) {events : List Event} {final : State} {index : ℕ}
    (hfresh : Along step FreshEntry (State.start sockfd) events)
    (hrun : run step (State.start sockfd) events = some final) (hreceives : final.Receives index) :
    final.reported (final.entry index).fd ≠ none ∧
      (final.kernel.socket (final.entry index).fd = none ∨
        final.kernel.socket (final.entry index).fd = final.reported (final.entry index).fd) := by
  have hfinal : Polled final :=
    run_invariant_along (fun _ _ _ hstate hallowed hstep ↦
      polled_move hstate hallowed (move_of_step hstep))
      ⟨shape_start sockfd, apart_start sockfd, fun hpoint ↦ absurd rfl hpoint⟩ hfresh hrun
  obtain ⟨hpoint, hindex, hrevents⟩ := hreceives
  have hreported := hfinal.reported (by rw [hpoint]; exact Point.noConfusion)
  have hentry := hreported.entries index (hfinal.shape.scan_pos index hpoint) hindex hrevents
  exact ⟨hentry, hreported.same _ hentry⟩

/-- A client is accepted and sends in the next round. -/
def clientSends : List Event :=
  [.poll (some (· == 3)), .accept (some 5), .next, .next, .poll (some (· == 5))]

theorem reads_reported_clientSends :
    ∃ final, run step (State.start 3) clientSends = some final ∧ final.Receives 1 ∧
      (final.entry 1).fd = 5 ∧ final.reported 5 = some 0 ∧ final.reported 5 ≠ none := by
  have hview : (run step (State.start 3) clientSends).map
      (fun state ↦ (state.point, state.nfds, state.entry 1, state.reported 5)) =
        some (.scan 1, 2, ⟨5, true, true⟩, some 0) := by decide +kernel
  obtain ⟨final, hrun, hseen⟩ := exists_of_view hview
  simp only [Prod.mk.injEq] at hseen
  obtain ⟨hpoint, hnfds, hentry, hreported⟩ := hseen
  have hreceives : final.Receives 1 := by
    refine ⟨hpoint, ?_, ?_⟩
    · rw [hnfds]
      decide
    · rw [hentry]
  have hfresh : Along step FreshEntry (State.start 3) clientSends := by decide +kernel
  have hreads := (reads_reported 3 hfresh hrun hreceives).1
  rw [hentry] at hreads
  refine ⟨final, hrun, hreceives, ?_, hreported, hreads⟩
  rw [hentry]

/-- A client disconnects, and another one is accepted in the next round. -/
def clientFollows : List Event :=
  [.poll (some (· == 3)), .accept (some 5), .next, .next, .poll (some (· == 5)),
    .recv .disconnect, .next, .poll (some (· == 3)), .accept (some 6)]

/-- The failure: the new client is read in the round in which it is accepted, although `poll` has
reported only the listening socket. -/
theorem stale_entry_read :
    ∃ final, run step (State.start 3) clientFollows = some final ∧ final.Receives 1 ∧
      (final.entry 1).fd = 6 ∧ final.kernel.socket 6 = some 1 ∧ final.reported 6 = none := by
  have hview : (run step (State.start 3) clientFollows).map
      (fun state ↦ (state.point, state.nfds, state.entry 1, state.kernel.socket 6,
        state.reported 6)) = some (.scan 1, 2, ⟨6, true, true⟩, some 1, none) := by decide +kernel
  obtain ⟨final, hrun, hseen⟩ := exists_of_view hview
  simp only [Prod.mk.injEq] at hseen
  obtain ⟨hpoint, hnfds, hentry, hsocket, hreported⟩ := hseen
  refine ⟨final, hrun, ⟨hpoint, ?_, ?_⟩, ?_, hsocket, hreported⟩
  · rw [hnfds]
    decide
  · rw [hentry]
  · rw [hentry]

end TestLinux.TcpServer.Pollio
