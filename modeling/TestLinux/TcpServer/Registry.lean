import TestLinux.TcpServer.Pollio
import Mathlib.Data.List.GetD
import Mathlib.Data.List.Nodup

/-!
# The clients registered in `pollio`

`Registry` is what the array `pfds` is for: its descriptors are those of the accepted connections
that have neither disconnected nor failed, each once and each open, and the connections that have
been closed are those that disconnected or failed.

A client is removed by overwriting its entry with the last one before the entry is read for `close`,
so that the socket of the last client is closed instead. The two agree exactly when the client that
is removed is the last one (`RemovesLast`); `clients_registered` says that the registry holds at
every return to `poll` of every run that removes only last clients, and
`other_client_closed` is a run in which the wrong socket is closed.
-/

set_option autoImplicit false
set_option relaxedAutoImplicit false

namespace TestLinux.TcpServer.Pollio

open TestLinux.Runs

/-- The clients in `pfds` are the live connections, and exactly the others are closed. -/
structure Registry (state : State) : Prop where
  nodup : state.registered.Nodup
  mem_iff : ∀ fd, fd ∈ state.registered ↔
    ∃ conn, state.kernel.Live conn ∧ state.kernel.socket fd = some conn
  live_open : ∀ conn, state.kernel.Live conn → ∃ fd, state.kernel.socket fd = some conn
  closed_iff : ∀ conn, conn ∈ state.kernel.closed ↔ conn ∈ state.kernel.ended

/-- A client whose stream ends is the last one in `pfds`. -/
def RemovesLast (state : State) : Event → Prop
  | .recv (.data _) => True
  | .recv _ => state.point = .scan (state.nfds - 1)
  | _ => True

instance decidableRemovesLast (state : State) : ∀ event, Decidable (RemovesLast state event)
  | .recv (.data _) => isTrue trivial
  | .recv .disconnect => inferInstanceAs (Decidable (state.point = .scan (state.nfds - 1)))
  | .recv .error => inferInstanceAs (Decidable (state.point = .scan (state.nfds - 1)))
  | .poll _ => isTrue trivial
  | .accept _ => isTrue trivial
  | .next => isTrue trivial

/-! ### Connections -/

/-- A connection is open on one descriptor while it is live, and closed once it has ended. -/
structure Settled (kernel : Kernel) : Prop where
  open_live : ∀ {fd conn}, kernel.socket fd = some conn → kernel.Live conn
  open_unique : ∀ {fd fd' conn}, kernel.socket fd = some conn → kernel.socket fd' = some conn →
    fd = fd'
  live_open : ∀ {conn}, kernel.Live conn → ∃ fd, kernel.socket fd = some conn
  ended_lt : ∀ conn ∈ kernel.ended, conn < kernel.accepted
  closed_iff : ∀ conn, conn ∈ kernel.closed ↔ conn ∈ kernel.ended

theorem settled_start : Settled .start where
  open_live := fun hsocket ↦ absurd hsocket.symm (Option.some_ne_none _)
  open_unique := fun hsocket _ ↦ absurd hsocket.symm (Option.some_ne_none _)
  live_open := fun hlive ↦ absurd hlive.1 (Nat.not_lt_zero _)
  ended_lt := fun _ hmem ↦ absurd hmem List.not_mem_nil
  closed_iff := fun _ ↦ Iff.rfl

theorem Settled.live_accept_iff {kernel : Kernel} (hkernel : Settled kernel) (fd conn : ℕ) :
    (kernel.accept fd).Live conn ↔ kernel.Live conn ∨ conn = kernel.accepted := by
  constructor
  · rintro ⟨hlt, hended⟩
    rcases Nat.lt_succ_iff_lt_or_eq.mp hlt with hold | hnew
    · exact Or.inl ⟨hold, hended⟩
    · exact Or.inr hnew
  · rintro (⟨hlt, hended⟩ | rfl)
    · exact ⟨Nat.lt_succ_of_lt hlt, hended⟩
    · exact ⟨Nat.lt_succ_self _, fun hmem ↦ absurd (hkernel.ended_lt _ hmem) (Nat.lt_irrefl _)⟩

/-- The socket of a new connection. -/
theorem socket_accept_iff {kernel : Kernel} {fd : ℕ}
    (hclosed : kernel.socket fd = none) (other conn : ℕ) :
    (kernel.accept fd).socket other = some conn ↔
      kernel.socket other = some conn ∨ other = fd ∧ conn = kernel.accepted := by
  by_cases hother : other = fd
  · subst hother
    change Function.update kernel.socket other (some kernel.accepted) other = some conn ↔ _
    rw [Function.update_self, Option.some.injEq, hclosed]
    constructor
    · intro hconn
      exact Or.inr ⟨rfl, hconn.symm⟩
    · rintro (hold | ⟨-, hconn⟩)
      · exact absurd hold.symm (Option.some_ne_none _)
      · exact hconn.symm
  · change Function.update kernel.socket fd (some kernel.accepted) other = some conn ↔ _
    rw [Function.update_of_ne hother]
    constructor
    · exact Or.inl
    · rintro (hold | ⟨heq, -⟩)
      · exact hold
      · exact absurd heq hother

theorem Settled.accept {kernel : Kernel} (hkernel : Settled kernel) {fd : ℕ}
    (hclosed : kernel.socket fd = none) : Settled (kernel.accept fd) where
  open_live := fun {other conn} hsocket ↦ by
    rw [hkernel.live_accept_iff]
    rcases (socket_accept_iff hclosed other conn).mp hsocket with hold | ⟨-, hnew⟩
    · exact Or.inl (hkernel.open_live hold)
    · exact Or.inr hnew
  open_unique := fun {other other' conn} hsocket hsocket' ↦ by
    rcases (socket_accept_iff hclosed other conn).mp hsocket with hold | ⟨rfl, rfl⟩ <;>
      rcases (socket_accept_iff hclosed other' _).mp hsocket' with hold' | ⟨rfl, hnew⟩
    · exact hkernel.open_unique hold hold'
    · subst hnew
      exact absurd (hkernel.open_live hold).1 (Nat.lt_irrefl _)
    · exact absurd (hkernel.open_live hold').1 (Nat.lt_irrefl _)
    · rfl
  live_open := fun {conn} hlive ↦ by
    rcases (hkernel.live_accept_iff fd conn).mp hlive with hold | rfl
    · obtain ⟨other, hsocket⟩ := hkernel.live_open hold
      exact ⟨other, (socket_accept_iff hclosed other conn).mpr (Or.inl hsocket)⟩
    · exact ⟨fd, (socket_accept_iff hclosed fd _).mpr (Or.inr ⟨rfl, rfl⟩)⟩
  ended_lt := fun conn hmem ↦ Nat.lt_succ_of_lt (hkernel.ended_lt conn hmem)
  closed_iff := hkernel.closed_iff

/-- A connection that ends and is closed. -/
theorem Settled.finish_close {kernel : Kernel} (hkernel : Settled kernel) {fd conn : ℕ}
    (hsocket : kernel.socket fd = some conn) : Settled ((kernel.finish fd).close fd) := by
  have hended : ((kernel.finish fd).close fd).ended = kernel.ended ++ [conn] := by
    change kernel.ended ++ (kernel.socket fd).toList = _
    rw [hsocket]
    rfl
  have hclosed : ((kernel.finish fd).close fd).closed = kernel.closed ++ [conn] := by
    change kernel.closed ++ (kernel.socket fd).toList = _
    rw [hsocket]
    rfl
  have hopen : ∀ {other conn'}, ((kernel.finish fd).close fd).socket other = some conn' →
      other ≠ fd ∧ kernel.socket other = some conn' := by
    intro other conn' hother
    change Function.update kernel.socket fd none other = some conn' at hother
    by_cases heq : other = fd
    · subst heq
      rw [Function.update_self] at hother
      exact absurd hother.symm (Option.some_ne_none _)
    · rw [Function.update_of_ne heq] at hother
      exact ⟨heq, hother⟩
  constructor
  · intro other conn' hother
    obtain ⟨hne, hold⟩ := hopen hother
    refine ⟨(hkernel.open_live hold).1, ?_⟩
    rw [hended, List.mem_append, List.mem_singleton]
    rintro (hmem | rfl)
    · exact (hkernel.open_live hold).2 hmem
    · exact hne (hkernel.open_unique hold hsocket)
  · intro other other' conn' hother hother'
    exact hkernel.open_unique (hopen hother).2 (hopen hother').2
  · rintro conn' ⟨hlt, hnot⟩
    rw [hended, List.mem_append, List.mem_singleton, not_or] at hnot
    obtain ⟨other, hold⟩ := hkernel.live_open ⟨hlt, hnot.1⟩
    refine ⟨other, ?_⟩
    have hne : other ≠ fd := by
      rintro rfl
      exact hnot.2 (Option.some.inj (hold.symm.trans hsocket))
    change Function.update kernel.socket fd none other = some conn'
    rw [Function.update_of_ne hne]
    exact hold
  · intro conn' hmem
    rw [hended, List.mem_append, List.mem_singleton] at hmem
    rcases hmem with hold | rfl
    · exact hkernel.ended_lt conn' hold
    · exact (hkernel.open_live hsocket).1
  · intro conn'
    rw [hended, hclosed, List.mem_append, List.mem_append, hkernel.closed_iff]

/-! ### The array -/

/-- The descriptors in the array are the open ones. -/
structure Registering (state : State) : Prop where
  settled : Settled state.kernel
  nodup : state.registered.Nodup
  mem_iff : ∀ fd, fd ∈ state.registered ↔ state.kernel.socket fd ≠ none

theorem Registering.registry {state : State} (hstate : Registering state) : Registry state where
  nodup := hstate.nodup
  mem_iff := fun fd ↦ by
    rw [hstate.mem_iff, Option.ne_none_iff_exists']
    constructor
    · rintro ⟨conn, hsocket⟩
      exact ⟨conn, hstate.settled.open_live hsocket, hsocket⟩
    · rintro ⟨conn, -, hsocket⟩
      exact ⟨conn, hsocket⟩
  live_open := fun _ hlive ↦ hstate.settled.live_open hlive
  closed_iff := hstate.settled.closed_iff

theorem registering_start (sockfd : ℕ) : Registering (State.start sockfd) where
  settled := settled_start
  nodup := List.nodup_nil
  mem_iff := fun fd ↦ by
    constructor
    · intro hmem
      exact absurd hmem List.not_mem_nil
    · intro hsocket
      exact absurd rfl hsocket

/-- Steps that keep the descriptors in the array and the sockets. -/
theorem Registering.congr {state next : State} (hstate : Registering state)
    (hfds : next.pfds.map PollFd.fd = state.pfds.map PollFd.fd) (hnfds : next.nfds = state.nfds)
    (hkernel : next.kernel = state.kernel) : Registering next := by
  have hregistered : next.registered = state.registered := by
    rw [State.registered, State.registered, List.map_drop, List.map_take, List.map_drop,
      List.map_take, hfds, hnfds]
  constructor
  · rw [hkernel]
    exact hstate.settled
  · rw [hregistered]
    exact hstate.nodup
  · rw [hregistered, hkernel]
    exact hstate.mem_iff

theorem registering_afterPoll {state : State} (hstate : Registering state) (ready : ℕ → Bool) :
    Registering (state.afterPoll ready) := by
  have hpolled : (fun entry ↦ PollFd.fd (state.polled ready entry)) = PollFd.fd := by
    funext entry
    rfl
  apply hstate.congr
  · rw [pfds_afterPoll, List.map_append, List.map_map, Function.comp_def, hpolled,
      ← List.map_append, List.take_append_drop]
  · exact nfds_afterPoll state ready
  · exact kernel_afterPoll state ready

/-- A new client stands behind the others. -/
theorem Shape.registered_afterAccept {state : State} (hshape : Shape state)
    (hroom : state.nfds < 1024) (clientfd : ℕ) :
    (state.afterAccept clientfd).registered = state.registered ++ [clientfd] := by
  have hindex : state.nfds < state.pfds.length := by
    rw [hshape.length_eq]
    exact hroom
  have htake : (state.pfds.set state.nfds
      { state.entry state.nfds with fd := clientfd, events := true }).take (state.nfds + 1) =
      state.pfds.take state.nfds ++
        [{ state.entry state.nfds with fd := clientfd, events := true }] := by
    rw [List.take_add_one, List.take_set_of_le (Nat.le_refl _), List.getElem?_set_self hindex]
    rfl
  have hfront : 1 ≤ (state.pfds.take state.nfds).length := by
    rw [List.length_take, hshape.length_eq]
    have hpos := hshape.nfds_pos
    omega
  change (((state.pfds.set state.nfds _).take (state.nfds + 1)).drop 1).map PollFd.fd = _
  rw [htake, List.drop_append_of_le_length hfront, List.map_append]
  rfl

theorem registering_afterAccept {state : State} {clientfd : ℕ} (hshape : Shape state)
    (hstate : Registering state) (hclosed : state.kernel.socket clientfd = none)
    (hroom : state.nfds < 1024) : Registering (state.afterAccept clientfd) := by
  have hregistered := hshape.registered_afterAccept hroom clientfd
  have hnew : clientfd ∉ state.registered := by
    rw [hstate.mem_iff, not_not]
    exact hclosed
  constructor
  · exact hstate.settled.accept hclosed
  · rw [hregistered, ← List.concat_eq_append]
    exact (List.nodup_concat _ _).mpr ⟨hnew, hstate.nodup⟩
  · intro fd
    change fd ∈ (state.afterAccept clientfd).registered ↔
      Function.update state.kernel.socket clientfd (some state.kernel.accepted) fd ≠ none
    rw [hregistered, List.mem_append, List.mem_singleton]
    by_cases hfd : fd = clientfd
    · subst hfd
      rw [Function.update_self]
      exact ⟨fun _ ↦ Option.some_ne_none _, fun _ ↦ Or.inr rfl⟩
    · rw [Function.update_of_ne hfd, hstate.mem_iff]
      exact ⟨fun hmem ↦ hmem.resolve_right hfd, Or.inl⟩

/-- The last client. -/
theorem Shape.registered_eq_append {state : State} (hshape : Shape state)
    (hindex : 1 < state.nfds) :
    state.registered = ((state.pfds.take (state.nfds - 1)).drop 1).map PollFd.fd ++
      [(state.entry (state.nfds - 1)).fd] := by
  have hlast : state.nfds - 1 < state.pfds.length := hshape.lt_length (by omega)
  have htake : state.pfds.take state.nfds =
      state.pfds.take (state.nfds - 1) ++ [state.entry (state.nfds - 1)] := by
    have hsucc : state.nfds = state.nfds - 1 + 1 := by omega
    rw [State.entry, List.getD_eq_getElem _ _ hlast]
    conv_lhs => rw [hsucc, List.take_add_one, List.getElem?_eq_getElem hlast]
    rfl
  have hfront : 1 ≤ (state.pfds.take (state.nfds - 1)).length := by
    rw [List.length_take]
    omega
  rw [State.registered, htake, List.drop_append_of_le_length hfront, List.map_append]
  rfl

/-- Removing the last client takes it out of the array and closes its socket. -/
theorem registering_remove {state : State} (hshape : Shape state) (hstate : Registering state)
    (hindex : 1 < state.nfds) : Registering (state.remove (state.nfds - 1)) := by
  have hregistered := hshape.registered_eq_append hindex
  have hsame : state.pfds.set (state.nfds - 1) (state.entry (state.nfds - 1)) = state.pfds := by
    have hlast : state.nfds - 1 < state.pfds.length := hshape.lt_length (by omega)
    rw [State.entry, List.getD_eq_getElem _ _ hlast]
    exact List.set_getElem_self hlast
  have hafter : (state.remove (state.nfds - 1)).registered =
      ((state.pfds.take (state.nfds - 1)).drop 1).map PollFd.fd := by
    change (((state.pfds.set (state.nfds - 1) _).take (state.nfds - 1)).drop 1).map _ = _
    rw [hsame]
  have hnodup := hstate.nodup
  rw [hregistered, ← hafter, List.nodup_append] at hnodup
  obtain ⟨hnodup', -, hapart⟩ := hnodup
  have hfresh : (state.entry (state.nfds - 1)).fd ∉ (state.remove (state.nfds - 1)).registered :=
    fun hmem ↦ hapart _ hmem _ (List.mem_singleton_self _) rfl
  have hmem : (state.entry (state.nfds - 1)).fd ∈ state.registered := by
    rw [hregistered]
    exact List.mem_append_right _ (List.mem_singleton_self _)
  obtain ⟨conn, hsocket⟩ := Option.ne_none_iff_exists'.mp ((hstate.mem_iff _).mp hmem)
  constructor
  · exact hstate.settled.finish_close hsocket
  · exact hnodup'
  · intro fd
    change _ ↔ Function.update state.kernel.socket (state.entry (state.nfds - 1)).fd none fd ≠ none
    by_cases hfd : fd = (state.entry (state.nfds - 1)).fd
    · rw [hfd, Function.update_self]
      exact ⟨fun hleft ↦ absurd hleft hfresh, fun hright ↦ absurd rfl hright⟩
    · rw [Function.update_of_ne hfd, ← hstate.mem_iff, hregistered, ← hafter, List.mem_append,
        List.mem_singleton]
      exact ⟨Or.inl, fun hold ↦ hold.resolve_right hfd⟩

/-! ### Runs -/

theorem registering_move {state next : State} {event : Event} (hshape : Shape state)
    (hstate : Registering state) (hlast : RemovesLast state event)
    (hmove : Move state event next) : Registering next := by
  cases hmove with
  | interrupted hpoint => exact hstate
  | poll hpoint ready => exact registering_afterPoll hstate ready
  | refused hpoint => exact hstate.congr rfl rfl rfl
  | accept hpoint hclosed hne hroom => exact registering_afterAccept hshape hstate hclosed hroom
  | data hreceives hpossible => exact hstate.congr rfl rfl rfl
  | @remove index hreceives answer hanswer hpossible =>
    obtain ⟨hpoint, hindex, -⟩ := hreceives
    have hpos := hshape.scan_pos index hpoint
    have heq : index = state.nfds - 1 := by
      cases answer with
      | data bytes => exact absurd rfl (hanswer bytes)
      | disconnect => exact Point.scan.inj (hpoint.symm.trans hlast)
      | error => exact Point.scan.inj (hpoint.symm.trans hlast)
    rw [heq]
    exact registering_remove hshape hstate (by omega)
  | skip hpoint hindex hunready => exact hstate.congr rfl rfl rfl
  | finish hpoint hindex => exact hstate.congr rfl rfl rfl

/-- At every moment of a run, so at every return to `poll`, the clients in `pfds` are the accepted
connections that have neither disconnected nor failed, each once and open, and exactly the others
have been closed. Assumes: every client that disconnects or fails is the last one in `pfds` at that
moment. -/
theorem clients_registered (sockfd : ℕ) {events : List Event} {final : State}
    (hlast : Along step RemovesLast (State.start sockfd) events)
    (hrun : run step (State.start sockfd) events = some final) : Registry final := by
  have hkept : ∀ state event next, Shape state ∧ Registering state → RemovesLast state event →
      step state event = some next → Shape next ∧ Registering next := by
    rintro state event next ⟨hshape, hstate⟩ hallowed hstep
    exact ⟨shape_move hshape (move_of_step hstep),
      registering_move hshape hstate hallowed (move_of_step hstep)⟩
  have hfinal : Shape final ∧ Registering final :=
    run_invariant_along hkept ⟨shape_start sockfd, registering_start sockfd⟩ hlast hrun
  exact hfinal.2.registry

/-- Only the listening socket is readable. -/
def onlyListener (sockfd fd : ℕ) : Bool := fd == sockfd

/-- Two clients are accepted, one in each round. -/
def twoClients : List Event :=
  [.poll (some (onlyListener 3)), .accept (some 5), .next, .next,
    .poll (some (onlyListener 3)), .accept (some 6), .next, .next, .next]

/-- The client accepted last disconnects. -/
def lastLeaves : List Event :=
  twoClients ++ [.poll (some (· == 6)), .next, .recv .disconnect, .next]

/-- The client accepted first disconnects. -/
def firstLeaves : List Event :=
  twoClients ++ [.poll (some (· == 5)), .recv .disconnect, .next]

theorem clients_registered_lastLeaves :
    ∃ final, run step (State.start 3) lastLeaves = some final ∧ final.point = .poll ∧
      final.registered = [5] ∧ Registry final := by
  have hview : (run step (State.start 3) lastLeaves).map
      (fun state ↦ (state.point, state.registered)) = some (.poll, [5]) := by decide +kernel
  obtain ⟨final, hrun, hseen⟩ := exists_of_view hview
  obtain ⟨hpoint, hregistered⟩ := Prod.mk.inj hseen
  have hlast : Along step RemovesLast (State.start 3) lastLeaves := by decide +kernel
  exact ⟨final, hrun, hpoint, hregistered, clients_registered 3 hlast hrun⟩

/-- The failure: the first client disconnects, the socket of the second one is closed, and the
socket of the first one stays open. -/
theorem other_client_closed :
    ∃ final, run step (State.start 3) firstLeaves = some final ∧ final.point = .poll ∧
      final.registered = [6] ∧ final.kernel.ended = [0] ∧ final.kernel.closed = [1] ∧
      final.kernel.socket 6 = none ∧ ¬ Registry final := by
  have hview : (run step (State.start 3) firstLeaves).map
      (fun state ↦ ((state.point, state.registered), state.kernel.ended, state.kernel.closed,
        state.kernel.socket 6)) = some ((.poll, [6]), [0], [1], none) := by decide +kernel
  obtain ⟨final, hrun, hseen⟩ := exists_of_view hview
  simp only [Prod.mk.injEq] at hseen
  obtain ⟨⟨hpoint, hregistered⟩, hended, hclosed, hsocket⟩ := hseen
  refine ⟨final, hrun, hpoint, hregistered, hended, hclosed, hsocket, ?_⟩
  intro hregistry
  have hiff := hregistry.closed_iff 1
  rw [hclosed, hended] at hiff
  exact absurd (hiff.mp (List.mem_singleton_self 1)) (by decide)

end TestLinux.TcpServer.Pollio
