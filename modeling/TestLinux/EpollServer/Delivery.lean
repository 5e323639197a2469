import TestLinux.EpollServer.Model

/-!
# What `epoll_server` reads and prints

`Watching` is the invariant about `epoll`: a socket exists exactly if it is watched or about to be
added, and a watched socket that is readable is in the ready list, or it is a client whose event the
loop has not finished. The loop gives up the event of a client only when `recv` has answered
`EAGAIN`, so at `epoll_wait` the ready list holds every readable socket. `Printing` is the invariant
about the data: what has been printed of a connection and what is still unread are together what has
arrived.

`Waiting` follows one queued socket through the scans of `epoll_wait`, each of which takes it or
brings it 1024 places closer to the front. `State.WillReport` says that a socket is reported sooner
or later.
-/

set_option autoImplicit false
set_option relaxedAutoImplicit false

namespace TestLinux.EpollServer

open TestLinux.Runs TestLinux.ReadyQueue

/-! ### Watched sockets -/

/-- The events that the loop has not finished. -/
def Point.batch : Point → List ℕ
  | .setup _ => []
  | .wait => []
  | .events rest => rest
  | .register _ rest => rest

/-- The sockets that are about to be added. -/
def Point.unadded : Point → List ℕ
  | .setup rest => rest
  | .wait => []
  | .events _ => []
  | .register clientfd _ => [clientfd]

/-- The socket is in the ready list, or is a client whose event is not finished. -/
def State.Queued (state : State) (fd : ℕ) : Prop :=
  fd ∈ state.ready ∨ fd ∉ state.listenFds ∧ fd ∈ state.point.batch

/-- What holds between two steps. -/
structure Watching (state : State) : Prop where
  queued : ∀ fd, state.watched fd = true → state.readable fd = true → state.Queued fd
  exists_iff : ∀ fd, (fd ∈ state.listenFds ∨ state.socket fd ≠ none) ↔
    state.watched fd = true ∨ fd ∈ state.point.unadded
  apart : ∀ fd ∈ state.listenFds, state.socket fd = none

theorem watching_start (listenFds : List ℕ) : Watching (State.start listenFds) where
  queued := fun _ hwatched ↦ absurd hwatched Bool.false_ne_true
  exists_iff := by
    intro fd
    constructor
    · rintro (hlisten | hopen)
      · exact Or.inr hlisten
      · exact absurd rfl hopen
    · rintro (hwatched | hunadded)
      · exact absurd hwatched Bool.false_ne_true
      · exact Or.inl hunadded
  apart := fun _ _ ↦ rfl

section Watching

variable {state : State}

theorem readable_of_listen {fd : ℕ} (hlisten : fd ∈ state.listenFds) :
    state.readable fd = !(state.backlog fd).isEmpty := if_pos hlisten

theorem readable_of_client {fd : ℕ} (hclient : fd ∉ state.listenFds) :
    state.readable fd = (state.socket fd).any Stream.readable := if_neg hclient

theorem readable_congr {next : State} {fd : ℕ} (hlistenFds : next.listenFds = state.listenFds)
    (hbacklog : (next.backlog fd).isEmpty = (state.backlog fd).isEmpty)
    (hsocket : next.socket fd = state.socket fd) : next.readable fd = state.readable fd := by
  unfold State.readable
  rw [hlistenFds, hbacklog, hsocket]

theorem readable_of_congr {next : State} {fd : ℕ} (hreadable : state.readable fd = true)
    (hlistenFds : next.listenFds = state.listenFds)
    (hbacklog : (next.backlog fd).isEmpty = (state.backlog fd).isEmpty)
    (hsocket : next.socket fd = state.socket fd) : next.readable fd = true :=
  (readable_congr hlistenFds hbacklog hsocket).trans hreadable

theorem isEmpty_update_set (listenFd index : ℕ) (stream : Stream) (fd : ℕ) :
    (Function.update state.backlog listenFd
        ((state.backlog listenFd).set index stream) fd).isEmpty =
      (state.backlog fd).isEmpty := by
  by_cases hfd : fd = listenFd
  · rw [hfd, Function.update_self, Bool.eq_iff_iff, List.isEmpty_iff, List.isEmpty_iff,
      List.set_eq_nil_iff]
  · rw [Function.update_of_ne hfd]

theorem Watching.not_listen (hstate : Watching state) {fd : ℕ} (hopen : state.socket fd ≠ none) :
    fd ∉ state.listenFds := fun hlisten ↦ hopen (hstate.apart fd hlisten)

theorem Watching.unwatched (hstate : Watching state) {fd : ℕ} (hclosed : state.socket fd = none)
    (hclient : fd ∉ state.listenFds) : state.watched fd = false := by
  by_contra hwatched
  rcases (hstate.exists_iff fd).mpr (Or.inl ((Bool.not_eq_false _).mp hwatched)) with h | h
  · exact hclient h
  · exact h hclosed

/-- A step that concerns one socket keeps the others queued. -/
theorem Watching.queued_of_ne (hstate : Watching state) {next : State} {fd : ℕ}
    (hlistenFds : next.listenFds = state.listenFds)
    (hwatched : ∀ other, other ≠ fd → next.watched other = state.watched other)
    (hreadable : ∀ other, other ≠ fd → next.readable other = state.readable other)
    (hready : ∀ other, other ≠ fd → other ∈ state.ready → other ∈ next.ready)
    (hbatch : ∀ other, other ≠ fd → other ∈ state.point.batch → other ∈ next.point.batch)
    (hself : next.watched fd = true → next.readable fd = true → next.Queued fd) :
    ∀ other, next.watched other = true → next.readable other = true → next.Queued other := by
  intro other hwatch hread
  by_cases hother : other = fd
  · rw [hother] at hwatch hread ⊢
    exact hself hwatch hread
  · rw [hwatched other hother] at hwatch
    rw [hreadable other hother] at hread
    rcases hstate.queued other hwatch hread with hqueue | ⟨hclient, hpending⟩
    · exact Or.inl (hready other hother hqueue)
    · exact Or.inr ⟨hlistenFds ▸ hclient, hbatch other hother hpending⟩

/-! ### The peers -/

theorem mem_ready_wake {fd other : ℕ} (hother : other ∈ state.ready) :
    other ∈ (state.wake fd).ready := by
  show other ∈ if state.watched fd = true then enqueue fd state.ready else state.ready
  split_ifs
  · exact mem_enqueue.mpr (Or.inr hother)
  · exact hother

theorem mem_ready_wake_self {fd : ℕ} (hwatched : state.watched fd = true) :
    fd ∈ (state.wake fd).ready := by
  show fd ∈ if state.watched fd = true then enqueue fd state.ready else state.ready
  rw [if_pos hwatched]
  exact mem_enqueue.mpr (Or.inl rfl)

theorem watching_connect (hstate : Watching state) (listenFd : ℕ) :
    Watching (state.connect listenFd) where
  queued := hstate.queued_of_ne rfl (fun _ _ ↦ rfl)
    (fun other hother ↦ readable_congr rfl (by
      show (Function.update state.backlog listenFd _ other).isEmpty = _
      rw [Function.update_of_ne hother]) rfl)
    (fun _ _ hready ↦ mem_ready_wake hready) (fun _ _ hbatch ↦ hbatch)
    fun hwatched _ ↦ Or.inl (mem_ready_wake_self hwatched)
  exists_iff := hstate.exists_iff
  apart := hstate.apart

theorem watching_arrivePending (hstate : Watching state) (listenFd index : ℕ) (stream : Stream) :
    Watching { state with
      backlog := Function.update state.backlog listenFd
        ((state.backlog listenFd).set index stream) } where
  queued := fun fd hwatched hreadable ↦ hstate.queued fd hwatched
    (readable_of_congr hreadable rfl (isEmpty_update_set listenFd index stream fd).symm rfl)
  exists_iff := hstate.exists_iff
  apart := hstate.apart

theorem update_some_ne_none_iff {fd : ℕ} (hopen : state.socket fd ≠ none) (stream : Stream)
    (other : ℕ) : Function.update state.socket fd (some stream) other ≠ none ↔
      state.socket other ≠ none := by
  by_cases hother : other = fd
  · rw [hother, Function.update_self]
    exact iff_of_true (Option.some_ne_none stream) hopen
  · rw [Function.update_of_ne hother]

theorem watching_arriveClient (hstate : Watching state) {fd : ℕ} (hopen : state.socket fd ≠ none)
    (stream : Stream) :
    Watching ({ state with socket := Function.update state.socket fd (some stream) }.wake fd) where
  queued := hstate.queued_of_ne rfl (fun _ _ ↦ rfl)
    (fun other hother ↦ readable_congr rfl rfl (Function.update_of_ne hother _ _))
    (fun _ _ hready ↦ mem_ready_wake hready) (fun _ _ hbatch ↦ hbatch)
    fun hwatched _ ↦ Or.inl (mem_ready_wake_self hwatched)
  exists_iff := fun other ↦
    (or_congr_right (update_some_ne_none_iff hopen stream other)).trans (hstate.exists_iff other)
  apart := fun other hlisten ↦ by
    have hother : other ≠ fd := fun heq ↦ hstate.not_listen hopen (heq ▸ hlisten)
    exact (Function.update_of_ne hother _ _).trans (hstate.apart other hlisten)

/-! ### The server -/

theorem mem_ready_add {fd other : ℕ} (hother : other ∈ state.ready) :
    other ∈ (state.add fd).ready := by
  show other ∈ if (!state.watched fd && state.readable fd) = true then enqueue fd state.ready
    else state.ready
  split_ifs
  · exact mem_enqueue.mpr (Or.inr hother)
  · exact hother

/-- Adding a socket queues it if it is readable. The point moves on by the socket that is added. -/
theorem watching_add (hstate : Watching state) {fd : ℕ} {point : Point}
    (hunadded : ∀ other, other ∈ state.point.unadded ↔ other = fd ∨ other ∈ point.unadded)
    (hbatch : point.batch = state.point.batch) :
    Watching { state.add fd with point := point } where
  queued := hstate.queued_of_ne rfl (fun other hother ↦ Function.update_of_ne hother _ _)
    (fun _ _ ↦ rfl) (fun _ _ hready ↦ mem_ready_add hready) (fun _ _ hmem ↦ hbatch ▸ hmem)
    fun _ hreadable ↦ by
      by_cases hwatched : state.watched fd = true
      · rcases hstate.queued fd hwatched hreadable with hready | ⟨hclient, hpending⟩
        · exact Or.inl (mem_ready_add hready)
        · exact Or.inr ⟨hclient, hbatch ▸ hpending⟩
      · left
        show fd ∈ if (!state.watched fd && state.readable fd) = true then enqueue fd state.ready
          else state.ready
        rw [Bool.not_eq_true _ |>.mp hwatched, if_pos (show (!false && state.readable fd) = true
          from hreadable)]
        exact mem_enqueue.mpr (Or.inl rfl)
  exists_iff := fun other ↦ by
    show (other ∈ state.listenFds ∨ state.socket other ≠ none) ↔
      Function.update state.watched fd true other = true ∨ other ∈ point.unadded
    rw [hstate.exists_iff other, hunadded]
    by_cases hother : other = fd
    · rw [hother, Function.update_self]
      exact iff_of_true (Or.inr (Or.inl rfl)) (Or.inl rfl)
    · rw [Function.update_of_ne hother, or_iff_right hother]
  apart := hstate.apart

/-- A scan keeps what it does not report to the loop. -/
theorem watching_wait (hstate : Watching state) (hpoint : state.point = .wait) :
    Watching state.wait where
  queued := by
    intro fd hwatched hreadable
    rcases hstate.queued fd hwatched hreadable with hready | ⟨-, hpending⟩
    · rcases mem_or_idxOf_collect 1024 hreadable hready with htaken | ⟨hleft, -⟩
      · by_cases hlisten : fd ∈ state.listenFds
        · exact Or.inl (List.mem_append_right _ (List.mem_filter.mpr
            ⟨htaken, decide_eq_true hlisten⟩))
        · exact Or.inr ⟨hlisten, htaken⟩
      · exact Or.inl (List.mem_append_left _ hleft)
    · rw [hpoint] at hpending
      exact absurd hpending List.not_mem_nil
  exists_iff := by
    intro fd
    have hexists := hstate.exists_iff fd
    rw [hpoint] at hexists
    exact hexists
  apart := hstate.apart

theorem Watching.move_on (hstate : Watching state) {point : Point}
    (hbatch : point.batch = state.point.batch) (hunadded : point.unadded = state.point.unadded) :
    Watching { state with point := point } where
  queued := fun fd hwatched hreadable ↦ by
    show fd ∈ state.ready ∨ fd ∉ state.listenFds ∧ fd ∈ point.batch
    rw [hbatch]
    exact hstate.queued fd hwatched hreadable
  exists_iff := fun fd ↦ by
    show (fd ∈ state.listenFds ∨ state.socket fd ≠ none) ↔
      state.watched fd = true ∨ fd ∈ point.unadded
    rw [hunadded]
    exact hstate.exists_iff fd
  apart := hstate.apart

/-- The loop gives up an event that leaves nothing to report. -/
theorem Watching.skip (hstate : Watching state) {fd : ℕ} {rest : List ℕ}
    (hpoint : state.point = .events (fd :: rest))
    (hnothing : fd ∈ state.listenFds ∨ state.readable fd = false) :
    Watching { state with point := .events rest } where
  queued := by
    intro other hwatched hreadable
    rcases hstate.queued other hwatched hreadable with hready | ⟨hclient, hpending⟩
    · exact Or.inl hready
    · rw [hpoint] at hpending
      rcases List.mem_cons.mp hpending with rfl | hrest
      · rcases hnothing with hlisten | hunreadable
        · exact absurd hlisten hclient
        · exact absurd (hreadable.symm.trans hunreadable) (by simp)
      · exact Or.inr ⟨hclient, hrest⟩
  exists_iff := by
    intro other
    have hexists := hstate.exists_iff other
    rw [hpoint] at hexists
    exact hexists
  apart := hstate.apart

theorem watching_accept (hstate : Watching state) {fd clientfd : ℕ} {rest : List ℕ}
    {stream : Stream} {pending : List Stream} (hpoint : state.point = .events (fd :: rest))
    (hlisten : fd ∈ state.listenFds) (hbacklog : state.backlog fd = stream :: pending)
    (hclosed : state.socket clientfd = none) (hclient : clientfd ∉ state.listenFds) :
    Watching (state.accept fd clientfd stream rest) where
  queued := by
    intro other hwatched hreadable
    have hne : other ≠ clientfd := by
      rintro rfl
      exact absurd (hwatched.symm.trans (hstate.unwatched hclosed hclient)) (by simp)
    have hbefore : state.readable other = true := by
      by_cases hother : other = fd
      · rw [hother, readable_of_listen hlisten, hbacklog]
        rfl
      · exact readable_of_congr hreadable rfl
          (congrArg List.isEmpty (Function.update_of_ne hother _ _).symm)
          (Function.update_of_ne hne _ _).symm
    rcases hstate.queued other hwatched hbefore with hready | ⟨hnotlisten, hpending⟩
    · exact Or.inl hready
    · rw [hpoint] at hpending
      rcases List.mem_cons.mp hpending with rfl | hrest
      · exact absurd hlisten hnotlisten
      · exact Or.inr ⟨hnotlisten, hrest⟩
  exists_iff := by
    intro other
    have hexists := hstate.exists_iff other
    rw [hpoint] at hexists
    show (other ∈ state.listenFds ∨
      Function.update state.socket clientfd (some stream) other ≠ none) ↔
        state.watched other = true ∨ other ∈ [clientfd]
    by_cases hother : other = clientfd
    · rw [hother, Function.update_self]
      exact iff_of_true (Or.inr (Option.some_ne_none _)) (Or.inr List.mem_cons_self)
    · rw [Function.update_of_ne hother, hexists, List.mem_singleton]
      exact or_congr_right (iff_of_false List.not_mem_nil hother)
  apart := fun other hother ↦ by
    have hne : other ≠ clientfd := fun heq ↦ hclient (heq ▸ hother)
    exact (Function.update_of_ne hne _ _).trans (hstate.apart other hother)

theorem watching_data (hstate : Watching state) {fd : ℕ} {rest : List ℕ}
    (hpoint : state.point = .events (fd :: rest)) (hopen : state.socket fd ≠ none)
    (stream : Stream) :
    Watching { state with socket := Function.update state.socket fd (some stream) } where
  queued := hstate.queued_of_ne rfl (fun _ _ ↦ rfl)
    (fun other hother ↦ readable_congr rfl rfl (Function.update_of_ne hother _ _))
    (fun _ _ hready ↦ hready) (fun _ _ hbatch ↦ hbatch)
    fun _ _ ↦ Or.inr ⟨hstate.not_listen hopen, by
      show fd ∈ state.point.batch
      rw [hpoint]
      exact List.mem_cons_self⟩
  exists_iff := fun other ↦
    (or_congr_right (update_some_ne_none_iff hopen stream other)).trans (hstate.exists_iff other)
  apart := fun other hlisten ↦ by
    have hother : other ≠ fd := fun heq ↦ hstate.not_listen hopen (heq ▸ hlisten)
    exact (Function.update_of_ne hother _ _).trans (hstate.apart other hlisten)

theorem watching_close (hstate : Watching state) {fd : ℕ} {rest : List ℕ}
    (hpoint : state.point = .events (fd :: rest)) (hclient : fd ∉ state.listenFds)
    (finished : List Stream) :
    Watching { state.close fd with point := .events rest, finished := finished } where
  queued := hstate.queued_of_ne rfl (fun other hother ↦ Function.update_of_ne hother _ _)
    (fun other hother ↦ readable_congr rfl rfl (Function.update_of_ne hother _ _))
    (fun _ hother hready ↦ mem_dequeue.mpr ⟨hready, hother⟩)
    (fun other hother hpending ↦ by
      rw [hpoint] at hpending
      exact (List.mem_cons.mp hpending).resolve_left hother)
    fun hwatched _ ↦ by
      have hfalse : Function.update state.watched fd false fd = false := Function.update_self ..
      exact absurd (hwatched.symm.trans hfalse) (by simp)
  exists_iff := by
    intro other
    have hexists := hstate.exists_iff other
    rw [hpoint] at hexists
    show (other ∈ state.listenFds ∨ Function.update state.socket fd none other ≠ none) ↔
      Function.update state.watched fd false other = true ∨ other ∈ []
    by_cases hother : other = fd
    · rw [hother, Function.update_self, Function.update_self]
      simp [hclient]
    · rw [Function.update_of_ne hother, Function.update_of_ne hother, hexists]
      rfl
  apart := fun other hlisten ↦ by
    have hother : other ≠ fd := fun heq ↦ hclient (heq ▸ hlisten)
    exact (Function.update_of_ne hother _ _).trans (hstate.apart other hlisten)

end Watching

theorem watching_move {state next : State} {event : Event} (hstate : Watching state)
    (hmove : Move state event next) : Watching next := by
  cases hmove with
  | connect hlisten => exact watching_connect hstate _
  | arrivePending hstream hnext => exact watching_arrivePending hstate _ _ _
  | arriveClient hstream hnext =>
    exact watching_arriveClient hstate (by rw [hstream]; exact Option.some_ne_none _) _
  | addListen hpoint =>
    exact watching_add hstate (fun _ ↦ by rw [hpoint]; exact List.mem_cons) (by rw [hpoint]; rfl)
  | addClient hpoint =>
    exact watching_add hstate (fun _ ↦ by rw [hpoint]; exact List.mem_cons) (by rw [hpoint]; rfl)
  | wait hpoint => exact watching_wait hstate hpoint
  | interrupted hpoint => exact hstate
  | refused hpoint hlisten => exact hstate.skip hpoint (Or.inl hlisten)
  | accept hpoint hlisten hbacklog hclosed hclient =>
    exact watching_accept hstate hpoint hlisten hbacklog hclosed hclient
  | @recv fd rest stream answer hpoint hclient hstream hpossible =>
    cases answer with
    | data count =>
      exact watching_data hstate hpoint (by rw [hstream]; exact Option.some_ne_none _) _
    | disconnect => exact watching_close hstate hpoint hclient _
    | again =>
      refine hstate.skip hpoint (Or.inr ?_)
      rw [readable_of_client hclient, hstream]
      exact hpossible
    | error => exact watching_close hstate hpoint hclient _
  | stale hpoint hclient hclosed => exact watching_close hstate hpoint hclient _
  | next hpoint =>
    rcases hpoint with hpoint | hpoint
    · exact hstate.move_on (by rw [hpoint]; rfl) (by rw [hpoint]; rfl)
    · exact hstate.move_on (by rw [hpoint]; rfl) (by rw [hpoint]; rfl)

/-! ### Printed data -/

/-- What has been printed and what is unread are together what has arrived. -/
def Stream.Sound (stream : Stream) : Prop := stream.printed ++ stream.unread = stream.arrived

theorem sound_arrive {stream next : Stream} {arrival : Arrival} (hstream : stream.Sound)
    (harrive : stream.arrive arrival = some next) : next.Sound := by
  unfold Stream.arrive at harrive
  split at harrive
  · obtain ⟨-, hnext⟩ := Option.ite_none_left_eq_some.mp harrive
    rw [← Option.some.inj hnext]
    show stream.printed ++ (stream.unread ++ _) = stream.arrived ++ _
    rw [← List.append_assoc, hstream]
  · exact Option.some.inj harrive ▸ hstream
  · exact Option.some.inj harrive ▸ hstream

theorem sound_print {stream : Stream} (hstream : stream.Sound) (count : ℕ) :
    (stream.print count).Sound := by
  show stream.printed ++ stream.unread.take count ++ stream.unread.drop count = stream.arrived
  rw [List.append_assoc, List.take_append_drop, hstream]

/-- No connection has lost data, and one closed behind its last byte is printed completely. -/
structure Printing (state : State) : Prop where
  clients : ∀ fd stream, state.socket fd = some stream → stream.Sound
  pending : ∀ fd, ∀ stream ∈ state.backlog fd, stream.Sound
  finished : ∀ stream ∈ state.finished, stream.fin = true ∧ stream.printed = stream.arrived

theorem printing_start (listenFds : List ℕ) : Printing (State.start listenFds) where
  clients := fun _ _ hstream ↦ absurd hstream (by simp [State.start])
  pending := fun _ _ hstream ↦ absurd hstream List.not_mem_nil
  finished := fun _ hstream ↦ absurd hstream List.not_mem_nil

section Printing

variable {state : State}

theorem Printing.update_socket (hstate : Printing state) (fd : ℕ) {stream : Option Stream}
    (hsound : ∀ client, stream = some client → client.Sound) :
    ∀ other client, Function.update state.socket fd stream other = some client →
      client.Sound := by
  intro other client hclient
  by_cases hother : other = fd
  · rw [hother, Function.update_self] at hclient
    exact hsound client hclient
  · rw [Function.update_of_ne hother] at hclient
    exact hstate.clients other client hclient

theorem Printing.update_backlog (hstate : Printing state) (fd : ℕ) {streams : List Stream}
    (hsound : ∀ stream ∈ streams, stream.Sound) :
    ∀ other, ∀ stream ∈ Function.update state.backlog fd streams other, stream.Sound := by
  intro other stream hstream
  by_cases hother : other = fd
  · rw [hother, Function.update_self] at hstream
    exact hsound stream hstream
  · rw [Function.update_of_ne hother] at hstream
    exact hstate.pending other stream hstream

theorem printing_recv (hstate : Printing state) {fd : ℕ} {rest : List ℕ} {stream : Stream}
    {answer : RecvAnswer} (hstream : state.socket fd = some stream)
    (hpossible : answer.Possible stream) : Printing (state.recv fd rest stream answer) := by
  have hsound := hstate.clients fd stream hstream
  have hclosed : ∀ client, (none : Option Stream) = some client → client.Sound :=
    fun _ heq ↦ absurd heq (by simp)
  cases answer with
  | data count =>
    refine ⟨hstate.update_socket fd fun client heq ↦ ?_, hstate.pending, hstate.finished⟩
    rw [← Option.some.inj heq]
    exact sound_print hsound count
  | again => exact ⟨hstate.clients, hstate.pending, hstate.finished⟩
  | error => exact ⟨hstate.update_socket fd hclosed, hstate.pending, hstate.finished⟩
  | disconnect =>
    refine ⟨hstate.update_socket fd hclosed, hstate.pending, fun other hother ↦ ?_⟩
    rcases List.mem_append.mp hother with hearlier | hlast
    · exact hstate.finished other hearlier
    · obtain ⟨hread, hfin⟩ := hpossible
      rw [List.mem_singleton.mp hlast]
      refine ⟨hfin, ?_⟩
      rw [← show stream.printed ++ stream.unread = stream.arrived from hsound, hread,
        List.append_nil]

theorem printing_move {next : State} {event : Event} (hstate : Printing state)
    (hmove : Move state event next) : Printing next := by
  cases hmove with
  | @connect listenFd hlisten =>
    refine ⟨hstate.clients, hstate.update_backlog listenFd fun stream hstream ↦ ?_,
      hstate.finished⟩
    rcases List.mem_append.mp hstream with hearlier | hlast
    · exact hstate.pending listenFd stream hearlier
    · rw [List.mem_singleton.mp hlast]
      rfl
  | @arrivePending arrival listenFd index stream arrived hstream harrived =>
    refine ⟨hstate.clients, hstate.update_backlog listenFd fun other hother ↦ ?_,
      hstate.finished⟩
    rcases List.mem_or_eq_of_mem_set hother with hearlier | rfl
    · exact hstate.pending listenFd other hearlier
    · exact sound_arrive (hstate.pending listenFd stream (List.mem_of_getElem? hstream)) harrived
  | @arriveClient arrival fd stream arrived hstream harrived =>
    refine ⟨hstate.update_socket fd fun client heq ↦ ?_, hstate.pending, hstate.finished⟩
    rw [← Option.some.inj heq]
    exact sound_arrive (hstate.clients fd stream hstream) harrived
  | addListen hpoint => exact ⟨hstate.clients, hstate.pending, hstate.finished⟩
  | addClient hpoint => exact ⟨hstate.clients, hstate.pending, hstate.finished⟩
  | wait hpoint => exact ⟨hstate.clients, hstate.pending, hstate.finished⟩
  | interrupted hpoint => exact hstate
  | refused hpoint hlisten => exact ⟨hstate.clients, hstate.pending, hstate.finished⟩
  | @accept fd clientfd rest stream pending hpoint hlisten hbacklog hclosed hclient =>
    have hpending := hstate.pending fd
    rw [hbacklog] at hpending
    refine ⟨hstate.update_socket clientfd fun client heq ↦ ?_,
      hstate.update_backlog fd fun other hother ↦ ?_, hstate.finished⟩
    · rw [← Option.some.inj heq]
      exact hpending stream List.mem_cons_self
    · rw [hbacklog] at hother
      exact hpending other (List.mem_cons_of_mem stream hother)
  | recv hpoint hclient hstream hpossible => exact printing_recv hstate hstream hpossible
  | @stale fd rest hpoint hclient hclosed =>
    exact ⟨hstate.update_socket fd fun _ heq ↦ absurd heq (by simp), hstate.pending,
      hstate.finished⟩
  | next hpoint => exact ⟨hstate.clients, hstate.pending, hstate.finished⟩

end Printing

/-! ### Reports -/

/-- One of the calls of `epoll_wait` in a run reports the socket. -/
inductive Reported (fd : ℕ) : State → List Event → Prop
  | now {state next : State} {rest : List Event} (hstep : step state .wait = some next)
      (hbatch : fd ∈ next.point.batch) : Reported fd state (.wait :: rest)
  | later {state next : State} {event : Event} {rest : List Event}
      (hstep : step state event = some next) (hlater : Reported fd next rest) :
    Reported fd state (event :: rest)

/-- The events that are calls of `epoll_wait`. -/
def Event.isWait : Event → Bool
  | .wait => true
  | _ => false

/-- A readable socket that is in the ready list with at most `place` sockets in front of it. -/
structure Waiting (fd place : ℕ) (state : State) : Prop where
  watched : state.watched fd = true
  readable : state.readable fd = true
  ready : fd ∈ state.ready
  idxOf_le : state.ready.idxOf fd ≤ place
  unreported : fd ∉ state.point.batch

theorem readable_arrive {stream next : Stream} {arrival : Arrival}
    (hreadable : stream.readable = true) (harrive : stream.arrive arrival = some next) :
    next.readable = true := by
  unfold Stream.arrive at harrive
  split at harrive
  · obtain ⟨-, hnext⟩ := Option.ite_none_left_eq_some.mp harrive
    rw [← Option.some.inj hnext]
    unfold Stream.readable at hreadable ⊢
    cases hunread : stream.unread with
    | nil =>
      rw [hunread] at hreadable
      simp only [List.isEmpty_nil, Bool.not_true, Bool.false_or] at hreadable
      rw [Bool.or_assoc, hreadable, Bool.or_true]
    | cons byte bytes => rfl
  · rw [← Option.some.inj harrive]
    simp [Stream.readable]
  · rw [← Option.some.inj harrive]
    simp [Stream.readable]

section Waiting

variable {state : State} {fd place : ℕ}

theorem Waiting.not_current (hwaiting : Waiting fd place state) {other : ℕ} {rest : List ℕ}
    (hpoint : state.point = .events (other :: rest)) : fd ≠ other ∧ fd ∉ rest := by
  have hunreported := hwaiting.unreported
  rw [hpoint] at hunreported
  exact ⟨List.ne_of_not_mem_cons hunreported, List.not_mem_of_not_mem_cons hunreported⟩

theorem Waiting.wake (hwaiting : Waiting fd place state) (other : ℕ) :
    fd ∈ (state.wake other).ready ∧ (state.wake other).ready.idxOf fd ≤ place := by
  refine ⟨mem_ready_wake hwaiting.ready, ?_⟩
  show (if state.watched other = true then enqueue other state.ready
    else state.ready).idxOf fd ≤ place
  split_ifs
  · rw [idxOf_enqueue other hwaiting.ready]
    exact hwaiting.idxOf_le
  · exact hwaiting.idxOf_le

theorem Waiting.add (hwaiting : Waiting fd place state) (other : ℕ) {point : Point}
    (hbatch : point.batch = state.point.batch) :
    Waiting fd place { state.add other with point := point } where
  watched := by
    show Function.update state.watched other true fd = true
    by_cases hfd : fd = other
    · rw [hfd, Function.update_self]
    · rw [Function.update_of_ne hfd]
      exact hwaiting.watched
  readable := hwaiting.readable
  ready := mem_ready_add hwaiting.ready
  idxOf_le := by
    show (if (!state.watched other && state.readable other) = true then enqueue other state.ready
      else state.ready).idxOf fd ≤ place
    split_ifs
    · rw [idxOf_enqueue other hwaiting.ready]
      exact hwaiting.idxOf_le
    · exact hwaiting.idxOf_le
  unreported := by
    show fd ∉ point.batch
    rw [hbatch]
    exact hwaiting.unreported

theorem Waiting.close (hwaiting : Waiting fd place state) {other : ℕ} (hother : fd ≠ other)
    {rest : List ℕ} (hrest : fd ∉ rest) (finished : List Stream) :
    Waiting fd place { state.close other with point := .events rest, finished := finished } where
  watched := (Function.update_of_ne hother _ _).trans hwaiting.watched
  readable := readable_of_congr hwaiting.readable rfl rfl (Function.update_of_ne hother _ _)
  ready := mem_dequeue.mpr ⟨hwaiting.ready, hother⟩
  idxOf_le := Nat.le_trans (idxOf_dequeue_le hother state.ready) hwaiting.idxOf_le
  unreported := hrest

/-- Nothing but `epoll_wait` changes that a socket is waiting. -/
theorem waiting_move {next : State} {event : Event} (hwaiting : Waiting fd place state)
    (hstate : Watching state) (hmove : Move state event next) (hevent : event.isWait = false) :
    Waiting fd place next := by
  have hunreported := hwaiting.unreported
  cases hmove with
  | @connect listenFd hlisten =>
    obtain ⟨hready, hplace⟩ := hwaiting.wake listenFd
    refine ⟨hwaiting.watched, ?_, hready, hplace, hunreported⟩
    by_cases hfd : fd = listenFd
    · rw [hfd]
      refine Eq.trans (readable_of_listen
        (show listenFd ∈ (state.connect listenFd).listenFds from hlisten)) ?_
      show (!(Function.update state.backlog listenFd _ listenFd).isEmpty) = true
      rw [Function.update_self]
      simp
    · exact readable_of_congr hwaiting.readable rfl
        (congrArg List.isEmpty (Function.update_of_ne hfd _ _)) rfl
  | @arrivePending arrival listenFd index stream arrived hstream harrived =>
    exact ⟨hwaiting.watched, readable_of_congr hwaiting.readable rfl
      (isEmpty_update_set listenFd index arrived fd) rfl, hwaiting.ready, hwaiting.idxOf_le,
      hunreported⟩
  | @arriveClient arrival client stream arrived hstream harrived =>
    obtain ⟨hready, hplace⟩ := hwaiting.wake client
    refine ⟨hwaiting.watched, ?_, hready, hplace, hunreported⟩
    have hclient : client ∉ state.listenFds :=
      hstate.not_listen (by rw [hstream]; exact Option.some_ne_none _)
    by_cases hfd : fd = client
    · have hreadable := hwaiting.readable
      rw [hfd, readable_of_client hclient, hstream] at hreadable
      rw [hfd]
      refine Eq.trans (if_neg hclient) ?_
      show (Function.update state.socket client (some arrived) client).any _ = true
      rw [Function.update_self]
      exact readable_arrive hreadable harrived
    · exact readable_of_congr hwaiting.readable rfl rfl (Function.update_of_ne hfd _ _)
  | addListen hpoint => exact hwaiting.add _ (by rw [hpoint]; rfl)
  | addClient hpoint => exact hwaiting.add _ (by rw [hpoint]; rfl)
  | wait hpoint => exact absurd hevent.symm Bool.false_ne_true
  | interrupted hpoint => exact hwaiting
  | refused hpoint hlisten =>
    exact ⟨hwaiting.watched, hwaiting.readable, hwaiting.ready, hwaiting.idxOf_le,
      (hwaiting.not_current hpoint).2⟩
  | @accept listenFd clientfd rest stream pending hpoint hlisten hbacklog hclosed hclient =>
    obtain ⟨hfd, hrest⟩ := hwaiting.not_current hpoint
    have hne : fd ≠ clientfd := by
      rintro rfl
      exact absurd (hwaiting.watched.symm.trans (hstate.unwatched hclosed hclient)) (by simp)
    exact ⟨hwaiting.watched, readable_of_congr hwaiting.readable rfl
      (congrArg List.isEmpty (Function.update_of_ne hfd _ _)) (Function.update_of_ne hne _ _),
      hwaiting.ready, hwaiting.idxOf_le, hrest⟩
  | @recv client rest stream answer hpoint hclient hstream hpossible =>
    obtain ⟨hfd, hrest⟩ := hwaiting.not_current hpoint
    cases answer with
    | data count =>
      exact ⟨hwaiting.watched, readable_of_congr hwaiting.readable rfl rfl
        (Function.update_of_ne hfd _ _), hwaiting.ready, hwaiting.idxOf_le, hunreported⟩
    | disconnect => exact hwaiting.close hfd hrest _
    | again =>
      exact ⟨hwaiting.watched, hwaiting.readable, hwaiting.ready, hwaiting.idxOf_le, hrest⟩
    | error => exact hwaiting.close hfd hrest _
  | @stale client rest hpoint hclient hclosed =>
    obtain ⟨hfd, hrest⟩ := hwaiting.not_current hpoint
    exact hwaiting.close hfd hrest _
  | next hpoint =>
    exact ⟨hwaiting.watched, hwaiting.readable, hwaiting.ready, hwaiting.idxOf_le,
      List.not_mem_nil⟩

/-- `epoll_wait` reports a waiting socket or brings it closer to the front. -/
theorem reported_or_waiting (hwaiting : Waiting fd place state) :
    fd ∈ state.wait.point.batch ∨ 1024 ≤ place ∧ Waiting fd (place - 1024) state.wait := by
  by_cases hbatch : fd ∈ state.wait.point.batch
  · exact Or.inl hbatch
  · obtain ⟨hleft, hcloser⟩ :=
      (mem_or_idxOf_collect 1024 hwaiting.readable hwaiting.ready).resolve_left hbatch
    have hfront := Nat.le_trans hcloser hwaiting.idxOf_le
    refine Or.inr ⟨by omega, hwaiting.watched, hwaiting.readable,
      List.mem_append_left _ hleft, ?_, hbatch⟩
    show ((collect state.readable 1024 state.ready).2 ++ _).idxOf fd ≤ place - 1024
    rw [List.idxOf_append_of_mem hleft]
    omega

/-- A waiting socket is reported as soon as `epoll_wait` has been called often enough for the
sockets in front of it. -/
theorem reported_of_waiting {events : List Event} {last : State} (hwaiting : Waiting fd place state)
    (hstate : Watching state) (hrun : run step state events = some last)
    (hwaits : place < 1024 * events.countP Event.isWait) : Reported fd state events := by
  induction events generalizing state place with
  | nil => exact absurd hwaits (Nat.not_lt_zero place)
  | cons event rest ih =>
    obtain ⟨next, hstep, hrest⟩ := run_cons_eq_some.mp hrun
    have hmove := move_of_step hstep
    have hnext := watching_move hstate hmove
    by_cases hevent : event.isWait = true
    · cases hmove with
      | wait hpoint =>
        rcases reported_or_waiting hwaiting with hbatch | ⟨hfar, hcloser⟩
        · exact .now hstep hbatch
        · refine .later hstep (ih hcloser hnext hrest ?_)
          rw [List.countP_cons_of_pos hevent] at hwaits
          omega
      | _ => exact absurd hevent Bool.false_ne_true
    · refine .later hstep (ih (waiting_move hwaiting hstate hmove
        ((Bool.not_eq_true _).mp hevent)) hnext hrest ?_)
      rw [List.countP_cons_of_neg hevent] at hwaits
      exact hwaits

end Waiting

/-! ### Runs -/

/-- The socket is in the ready list, and in every continuation one of the calls of `epoll_wait`
reports it, at the latest when they have taken the sockets in front of it. -/
def State.WillReport (state : State) (fd : ℕ) : Prop :=
  fd ∈ state.ready ∧ ∀ later last, run step state later = some last →
    state.ready.idxOf fd < 1024 * later.countP Event.isWait → Reported fd state later

/-- At `epoll_wait` every watched socket that is readable is in the ready list. -/
theorem Watching.willReport {state : State} (hstate : Watching state) (hpoint : state.point = .wait)
    {fd : ℕ} (hwatched : state.watched fd = true) (hreadable : state.readable fd = true) :
    state.WillReport fd := by
  have hbatch : fd ∉ state.point.batch := by
    rw [hpoint]
    exact List.not_mem_nil
  have hready : fd ∈ state.ready :=
    (hstate.queued fd hwatched hreadable).resolve_right fun hpending ↦ hbatch hpending.2
  have hwaiting : Waiting fd (state.ready.idxOf fd) state :=
    ⟨hwatched, hreadable, hready, Nat.le_refl _, hbatch⟩
  exact ⟨hready, fun later last hrun hwaits ↦ reported_of_waiting hwaiting hstate hrun hwaits⟩

theorem Watching.watched_of_wait {state : State} (hstate : Watching state)
    (hpoint : state.point = .wait) {fd : ℕ}
    (hexists : fd ∈ state.listenFds ∨ state.socket fd ≠ none) : state.watched fd = true := by
  rcases (hstate.exists_iff fd).mp hexists with hwatched | hunadded
  · exact hwatched
  · rw [hpoint] at hunadded
    exact absurd hunadded List.not_mem_nil

theorem listenFds_move {state next : State} {event : Event} (hmove : Move state event next) :
    next.listenFds = state.listenFds := by
  cases hmove with
  | @recv fd rest stream answer hpoint hclient hstream hpossible =>
    cases answer with
    | _ => rfl
  | _ => rfl

end TestLinux.EpollServer
