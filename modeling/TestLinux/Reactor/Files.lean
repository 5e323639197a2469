import TestLinux.Library.Holdings
import TestLinux.Reactor.Slots

/-!
# The files that `http_response` opens

The descriptor of an open file is kept in the slot of a connection and closed by `reset_w`, that is,
when the response is complete. `State.holding` are the descriptors in the slots of open sockets, and
the reactor leaks nothing as long as these are the descriptors that are open, each in one slot
(`Tally`).

There are two ways to lose one. `http_response` opens the file whenever the offset is at the end of
the header, which is still so after a `sendfile` that took nothing, and then writes the new
descriptor over the old one. And the exits of `write_callback` that close the socket leave the file
open. `Tidy` says that a step does neither, and `files_held_iff` that this is what it takes.
-/

set_option autoImplicit false
set_option relaxedAutoImplicit false

namespace TestLinux.Reactor

open TestLinux.Runs TestLinux.Holdings

/-! ### Descriptors in slots -/

/-- The descriptor in the slot of an open socket. -/
def State.holding (state : State) (fd : ℕ) : Option ℕ :=
  if state.interest fd = none then none else (state.conns fd).wFileFd

/-- The socket is broken, or closed by its peer. -/
def SendResult.Closes : SendResult → Prop
  | .accepts room => room = 0
  | .again => False
  | .error => True

/-- No file is opened for a slot that has one, and no socket whose slot has one is closed. -/
def Tidy (res : Resource) (state : State) : Event → Prop
  | .client fd (.write opened result) =>
    (opensFile res (state.conns fd) → opened ≠ none → (state.conns fd).wFileFd = none) ∧
      (fileAfterOpen res opened (state.conns fd) ≠ none → ¬ result.Closes)
  | .client _ (.read _) => True
  | .listen _ _ => True

/-- The open files after `http_response`. -/
def filesAfterOpen (res : Resource) (opened : Option ℕ) (conn : Connection) (files : List ℕ) :
    List ℕ :=
  if opensFile res conn then opened.toList ++ files else files

theorem filesAfterWrite_of_ne {next : Next} (res : Resource) (opened : Option ℕ)
    (conn : Connection) (files : List ℕ) (hnext : next ≠ .watch .recv) :
    filesAfterWrite res opened conn next files = filesAfterOpen res opened conn files :=
  if_neg hnext

theorem filesAfterWrite_of_none {res : Resource} {opened : Option ℕ} {conn : Connection}
    (next : Next) (files : List ℕ) (hslot : fileAfterOpen res opened conn = none) :
    filesAfterWrite res opened conn next files = filesAfterOpen res opened conn files := by
  rw [fileAfterOpen] at hslot
  simp only [filesAfterWrite, hslot, filesAfterOpen, ite_self]

/-- `reset_w` closes the file in the slot. -/
theorem filesAfterWrite_of_some {res : Resource} {opened : Option ℕ} {conn : Connection}
    {filefd : ℕ} (files : List ℕ) (hslot : fileAfterOpen res opened conn = some filefd) :
    filesAfterWrite res opened conn (.watch .recv) files =
      (filesAfterOpen res opened conn files).erase filefd := by
  rw [fileAfterOpen] at hslot
  simp only [filesAfterWrite, hslot, filesAfterOpen, ↓reduceIte]

/-! ### What a call of `write_callback` does to its file -/

theorem switchEvent_next (conn : Connection) (socket : ℕ) (accepted : List UInt8) :
    (switchEvent conn socket accepted).next ≠ .close := by
  by_cases hend : conn.wstatus = .body ∧ conn.woffset = conn.wtotallength
  · simp [switchEvent, hend]
  · by_cases hfinished : conn.wstatus = .finished
    · simp [switchEvent, hfinished]
    · simp [switchEvent, if_neg hend, if_neg hfinished]

/-- With a file, the socket is closed exactly if it is broken: there are bytes left to send. -/
theorem Ready.sendFile_next_iff {res : Resource} {conn : Connection} (hconn : Ready res conn)
    (result : SendResult) :
    (Reactor.sendFile res result conn).next = .close ↔ result.Closes := by
  cases result with
  | again => simp [Reactor.sendFile, SendResult.Closes]
  | error => simp [Reactor.sendFile, SendResult.Closes]
  | accepts room =>
    have hunfinished := hconn.unfinished
    have hleft : 0 < conn.wtotallength - conn.woffset := by
      rw [hconn.total]
      omega
    simp only [Reactor.sendFile, SendResult.Closes]
    split_ifs with hzero
    · exact iff_of_true rfl (by omega)
    · exact iff_of_false (switchEvent_next _ _ _) (by omega)

/-- The file in the slot stays there, or the response is complete and it is closed. -/
theorem Placed.writeCallback_file {res : Resource} {conn : Connection} {fd : ℕ}
    {opened : Option ℕ} {result : SendResult} {written : Written} (hconn : Placed res conn)
    (hcallback : Reactor.writeCallback res fd opened result conn = some written) :
    (written.next = .keep ∨ written.next = .close) ∧
        written.conn.wFileFd = fileAfterOpen res opened conn ∨
      written.next = .watch .recv ∧ written.conn.wFileFd = none := by
  obtain ⟨loaded, -, hfile, houtcome, -⟩ := hconn.writeCallback hcallback
  rw [← hfile]
  cases houtcome with
  | waiting next hnext => exact Or.inl ⟨hnext, rfl⟩
  | sent hlater hinBody hsame => exact Or.inl ⟨Or.inl rfl, hsame⟩
  | finished hlater hinBody hnone => exact Or.inr ⟨rfl, hnone⟩

theorem Placed.next_close_iff {res : Resource} {conn : Connection} {fd : ℕ}
    {opened : Option ℕ} {result : SendResult} {written : Written} (hconn : Placed res conn)
    (hcallback : Reactor.writeCallback res fd opened result conn = some written)
    (hslot : fileAfterOpen res opened conn ≠ none) :
    written.next = .close ↔ result.Closes := by
  obtain ⟨loaded, hready, hfile, -, hbranch⟩ := hconn.writeCallback hcallback
  rw [← hfile] at hslot
  rcases hbranch with ⟨hnone, -⟩ | ⟨-, rfl⟩
  · exact absurd hnone hslot
  · exact hready.sendFile_next_iff result

/-! ### The books of the reactor -/

/-- The invariant: slots without a response have no file, and the open files are those in the slots
of open sockets. -/
structure Kept (res : Resource) (state : State) : Prop where
  placed : ∀ fd, Placed res (state.conns fd)
  idle : ∀ fd, state.interest fd ≠ some .send → (state.conns fd).wFileFd = none
  tally : Tally state.holding state.files

theorem Kept.holding_eq {res : Resource} {state : State} (hstate : Kept res state) (fd : ℕ) :
    state.holding fd = (state.conns fd).wFileFd := by
  unfold State.holding
  split_ifs with hclosed
  · have hidle := hstate.idle fd
    rw [hclosed] at hidle
    exact (hidle (by simp)).symm
  · rfl

theorem kept_start (res : Resource) (listenfd : ℕ) : Kept res (State.start listenfd) := by
  have hslot : ∀ fd, ((State.start listenfd).conns fd).wFileFd = none := by
    intro fd
    by_cases hfd : fd = listenfd
    · subst hfd
      simp [State.start, Connection.unused]
    · simp [State.start, hfd, Connection.unused]
  have hholding : (State.start listenfd).holding = fun _ ↦ none := by
    funext fd
    rw [State.holding, hslot, ite_self]
  refine ⟨placed_start res listenfd, fun fd _ ↦ hslot fd, ?_⟩
  rw [hholding]
  exact tally_nil

/-- An event that leaves the files alone and puts none into its slot. -/
theorem Kept.of_update {res : Resource} {state next : State} {client : ℕ} {conn : Connection}
    {interest : Option Interest} (hstate : Kept res state)
    (hplaced : ∀ fd, Placed res (next.conns fd))
    (hconns : next.conns = Function.update state.conns client conn)
    (hinterest : next.interest = Function.update state.interest client interest)
    (hfiles : next.files = state.files) (hbefore : (state.conns client).wFileFd = none)
    (hafter : conn.wFileFd = none) : Kept res next := by
  have hslot : ∀ fd, (next.conns fd).wFileFd = (state.conns fd).wFileFd := by
    intro fd
    rw [hconns]
    by_cases hfd : fd = client
    · subst hfd
      rw [Function.update_self, hafter, hbefore]
    · rw [Function.update_of_ne hfd]
  have hidle : ∀ fd, next.interest fd ≠ some .send → (next.conns fd).wFileFd = none := by
    intro fd hnotSending
    rw [hslot]
    by_cases hfd : fd = client
    · rw [hfd, hbefore]
    · rw [hinterest, Function.update_of_ne hfd] at hnotSending
      exact hstate.idle fd hnotSending
  have hholding : next.holding = state.holding := by
    funext fd
    rw [hstate.holding_eq, ← hslot, State.holding]
    split_ifs with hclosed
    · rw [hidle fd (by rw [hclosed]; simp)]
    · rfl
  refine ⟨hplaced, hidle, ?_⟩
  rw [hholding, hfiles]
  exact hstate.tally

theorem wFileFd_readCallback (result : RecvResult) (conn : Connection) :
    (readCallback result conn).1.wFileFd = conn.wFileFd := by
  cases result with
  | again => rfl
  | error => rfl
  | received data =>
    simp only [readCallback]
    split_ifs <;> rfl

/-- After `http_response`, the slot holds the file that was opened, if it had none before. -/
theorem Kept.tally_open {res : Resource} {state : State} {fd : ℕ} {opened : Option ℕ}
    (hstate : Kept res state) (hopened : ∀ filefd ∈ opened, state.Unopened filefd)
    (hempty : opensFile res (state.conns fd) → opened ≠ none →
      (state.conns fd).wFileFd = none) :
    Tally (Function.update state.holding fd (fileAfterOpen res opened (state.conns fd)))
      (filesAfterOpen res opened (state.conns fd) state.files) := by
  have hholding := hstate.holding_eq fd
  unfold fileAfterOpen filesAfterOpen
  split_ifs with hopens
  · cases opened with
    | none =>
      rw [Option.none_or, ← hholding, Function.update_eq_self]
      exact hstate.tally
    | some filefd =>
      rw [hempty hopens (Option.some_ne_none _)] at hholding
      exact hstate.tally.acquire hholding (hopened filefd rfl).2
  · rw [← hholding, Function.update_eq_self]
    exact hstate.tally

theorem holding_afterWrite {res : Resource} {state : State} {fd : ℕ} (opened : Option ℕ)
    (written : Written) :
    (state.afterWrite res fd opened written).holding = Function.update state.holding fd
      (if written.next.apply (state.interest fd) = none then none else written.conn.wFileFd) := by
  funext other
  by_cases hother : other = fd
  · subst hother
    simp [State.holding, State.afterWrite]
  · simp [State.holding, State.afterWrite, Function.update_of_ne hother]

/-- The books after a tidy call of `write_callback`, and the slot of a socket that does not send any
more. -/
theorem Kept.tally_write {res : Resource} {state : State} {fd : ℕ} {opened : Option ℕ}
    {result : SendResult} {written : Written} (hstate : Kept res state)
    (hinterest : state.interest fd = some .send)
    (hopened : ∀ filefd ∈ opened, state.Unopened filefd)
    (hcallback : writeCallback res fd opened result (state.conns fd) = some written)
    (htidy : Tidy res state (.client fd (.write opened result))) :
    Tally (state.afterWrite res fd opened written).holding
        (state.afterWrite res fd opened written).files ∧
      (written.next.apply (state.interest fd) ≠ some .send → written.conn.wFileFd = none) := by
  have htally := hstate.tally_open hopened htidy.1
  rw [holding_afterWrite]
  change Tally _ (filesAfterWrite res opened (state.conns fd) written.next state.files) ∧ _
  obtain ⟨hnext, hfile⟩ | ⟨hnext, hfile⟩ := (hstate.placed fd).writeCallback_file hcallback
  · have hne : written.next ≠ .watch .recv := by
      rcases hnext with heq | heq <;> rw [heq] <;> simp
    rw [filesAfterWrite_of_ne res opened _ state.files hne, hfile]
    rcases hnext with hkeep | hclose
    · rw [hkeep, Next.apply, hinterest, if_neg (Option.some_ne_none _)]
      exact ⟨htally, fun hnot ↦ absurd rfl hnot⟩
    · -- A tidy call closes no socket whose slot has a file.
      have hslot : fileAfterOpen res opened (state.conns fd) = none := by
        by_contra hslot
        exact htidy.2 hslot (((hstate.placed fd).next_close_iff hcallback hslot).mp hclose)
      rw [hslot] at htally ⊢
      rw [ite_self]
      exact ⟨htally, fun _ ↦ rfl⟩
  · rw [hnext, Next.apply, hfile, ite_self]
    refine ⟨?_, fun _ ↦ rfl⟩
    cases hslot : fileAfterOpen res opened (state.conns fd) with
    | none =>
      rw [filesAfterWrite_of_none _ state.files hslot]
      rw [hslot] at htally
      exact htally
    | some filefd =>
      rw [filesAfterWrite_of_some state.files hslot]
      rw [hslot] at htally
      have hrelease := htally.release (Function.update_self fd (some filefd) state.holding)
      rwa [Function.update_idem] at hrelease

theorem kept_step {res : Resource} {state next : State} {event : Event} (hstate : Kept res state)
    (htidy : Tidy res state event) (hstep : Transition res state event next) : Kept res next := by
  have hplaced := placed_step hstate.placed hstep
  cases hstep with
  | idle => exact hstate
  | @accept _ clientfd hunopened =>
    have hslot : (state.conns clientfd).wFileFd = none :=
      hstate.idle clientfd (by rw [hunopened.1]; simp)
    exact hstate.of_update hplaced rfl rfl rfl hslot hslot
  | @read client result hinterest hcount =>
    have hslot : (state.conns client).wFileFd = none :=
      hstate.idle client (by rw [hinterest]; simp)
    exact hstate.of_update hplaced rfl rfl rfl hslot
      ((wFileFd_readCallback result _).trans hslot)
  | @write client opened result written hinterest hopened hcallback =>
    obtain ⟨htally, hidle⟩ := hstate.tally_write hinterest hopened hcallback htidy
    refine ⟨hplaced, fun fd hnotSending ↦ ?_, htally⟩
    simp only [State.afterWrite] at hnotSending ⊢
    by_cases hfd : fd = client
    · subst hfd
      rw [Function.update_self] at hnotSending ⊢
      exact hidle hnotSending
    · rw [Function.update_of_ne hfd] at hnotSending ⊢
      exact hstate.idle fd hnotSending

/-! ### Steps that are not tidy -/

/-- Nobody else holds the file that a slot has after `http_response`. -/
theorem Kept.not_held_elsewhere {res : Resource} {state : State} {fd filefd : ℕ}
    {opened : Option ℕ} (hstate : Kept res state)
    (hopened : ∀ filefd ∈ opened, state.Unopened filefd)
    (hfile : filefd ∈ opened ∨ (state.conns fd).wFileFd = some filefd) :
    ∀ other, other ≠ fd → state.holding other ≠ some filefd := by
  intro other hne hother
  rcases hfile with hnew | hslot
  · exact (hopened filefd hnew).2 ((hstate.tally.mem_iff filefd).mpr ⟨other, hother⟩)
  · exact hne (hstate.tally.unique filefd other fd hother ((hstate.holding_eq fd).trans hslot))

theorem Kept.mem_files {res : Resource} {state : State} {fd filefd : ℕ} (hstate : Kept res state)
    (hslot : (state.conns fd).wFileFd = some filefd) : filefd ∈ state.files :=
  (hstate.tally.mem_iff filefd).mpr ⟨fd, (hstate.holding_eq fd).trans hslot⟩

/-- A file other than the one in the slot stays open. -/
theorem mem_filesAfterWrite {res : Resource} {opened : Option ℕ} {conn : Connection}
    {files : List ℕ} {filefd : ℕ} (next : Next)
    (hheld : filefd ∈ filesAfterOpen res opened conn files)
    (hslot : fileAfterOpen res opened conn ≠ some filefd) :
    filefd ∈ filesAfterWrite res opened conn next files := by
  by_cases hnext : next = .watch .recv
  · subst hnext
    cases hvalue : fileAfterOpen res opened conn with
    | none => rwa [filesAfterWrite_of_none _ files hvalue]
    | some other =>
      have hne : filefd ≠ other := by
        rintro rfl
        exact hslot hvalue
      rw [filesAfterWrite_of_some files hvalue]
      exact (List.mem_erase_of_ne hne).mpr hheld
  · rwa [filesAfterWrite_of_ne res opened conn files hnext]

/-- A file that is opened for a slot that has one leaves the old one without a holder. -/
theorem Kept.empty_of_tally {res : Resource} {state : State} {fd : ℕ} {opened : Option ℕ}
    {result : SendResult} {written : Written} (hstate : Kept res state)
    (hopened : ∀ filefd ∈ opened, state.Unopened filefd)
    (hcallback : writeCallback res fd opened result (state.conns fd) = some written)
    (htally : Tally (state.afterWrite res fd opened written).holding
      (state.afterWrite res fd opened written).files)
    (hopens : opensFile res (state.conns fd)) (hsome : opened ≠ none) :
    (state.conns fd).wFileFd = none := by
  obtain ⟨filefd, rfl⟩ := Option.ne_none_iff_exists'.mp hsome
  by_contra hslot
  obtain ⟨lost, hlost⟩ := Option.ne_none_iff_exists'.mp hslot
  have hmem := hstate.mem_files hlost
  have hslotAfter : fileAfterOpen res (some filefd) (state.conns fd) ≠ some lost := by
    rw [fileAfterOpen, if_pos hopens, Option.some_or]
    intro heq
    exact (hopened filefd rfl).2 (Option.some.inj heq ▸ hmem)
  have hheld : lost ∈ filesAfterOpen res (some filefd) (state.conns fd) state.files := by
    rw [filesAfterOpen, if_pos hopens]
    exact List.mem_cons_of_mem filefd hmem
  rw [holding_afterWrite] at htally
  refine not_tally_update (hstate.not_held_elsewhere hopened (Or.inr hlost)) ?_
    (mem_filesAfterWrite written.next hheld hslotAfter) htally
  split_ifs
  · exact (Option.some_ne_none lost).symm
  · obtain ⟨-, hfile⟩ | ⟨-, hfile⟩ := (hstate.placed fd).writeCallback_file hcallback
    · rw [hfile]
      exact hslotAfter
    · rw [hfile]
      exact (Option.some_ne_none lost).symm

/-- A file in the slot of a socket that is closed has no holder any more. -/
theorem Kept.not_closes_of_tally {res : Resource} {state : State} {fd : ℕ} {opened : Option ℕ}
    {result : SendResult} {written : Written} (hstate : Kept res state)
    (hopened : ∀ filefd ∈ opened, state.Unopened filefd)
    (hcallback : writeCallback res fd opened result (state.conns fd) = some written)
    (htally : Tally (state.afterWrite res fd opened written).holding
      (state.afterWrite res fd opened written).files)
    (hslot : fileAfterOpen res opened (state.conns fd) ≠ none) : ¬ result.Closes := by
  intro hcloses
  have hclose := ((hstate.placed fd).next_close_iff hcallback hslot).mpr hcloses
  obtain ⟨lost, hlost⟩ := Option.ne_none_iff_exists'.mp hslot
  obtain ⟨hheld, hfile⟩ : lost ∈ filesAfterOpen res opened (state.conns fd) state.files ∧
      (lost ∈ opened ∨ (state.conns fd).wFileFd = some lost) := by
    unfold fileAfterOpen at hlost
    unfold filesAfterOpen
    split_ifs at hlost ⊢ with hopens
    · rcases Option.or_eq_some_iff.mp hlost with hnew | ⟨-, hold⟩
      · exact ⟨List.mem_append_left _ (Option.mem_toList.mpr hnew), Or.inl hnew⟩
      · exact ⟨List.mem_append_right _ (hstate.mem_files hold), Or.inr hold⟩
    · exact ⟨hstate.mem_files hlost, Or.inr hlost⟩
  rw [holding_afterWrite, hclose, Next.apply, if_pos rfl] at htally
  refine not_tally_update (hstate.not_held_elsewhere hopened hfile)
    (Option.some_ne_none lost).symm ?_ htally
  change lost ∈ filesAfterWrite res opened (state.conns fd) written.next state.files
  rwa [hclose, filesAfterWrite_of_ne res opened _ state.files (by simp)]

theorem tidy_of_tally {res : Resource} {state next : State} {event : Event}
    (hstate : Kept res state) (hstep : Transition res state event next)
    (htally : Tally next.holding next.files) : Tidy res state event := by
  cases hstep with
  | idle => trivial
  | accept hunopened => trivial
  | read hinterest hcount => trivial
  | write hinterest hopened hcallback =>
    exact ⟨hstate.empty_of_tally hopened hcallback htally,
      hstate.not_closes_of_tally hopened hcallback htally⟩

/-! ### No leaks -/

/-- In every run of the reactor, in all its states the files that `http_response` has opened and
nobody has closed are those in the slots of the open sockets, each in one slot, exactly if no step
opens a file for a slot that has one or closes a socket whose slot has one. -/
theorem files_held_iff (res : Resource) (listenfd : ℕ) {events : List Event} {final : State}
    (hrun : run (step res) (State.start listenfd) events = some final) :
    Throughout (step res) (fun state ↦ Tally state.holding state.files) (State.start listenfd)
        events ↔
      Along (step res) (Tidy res) (State.start listenfd) events :=
  throughout_iff_along (fun _ hstate ↦ hstate.tally)
    (fun _ _ _ hstate htidy hstep ↦ kept_step hstate htidy (transition_of_step hstep))
    (fun _ _ _ hstate hstep htally ↦ tidy_of_tally hstate (transition_of_step hstep) htally)
    (kept_start res listenfd) hrun

instance decidableCloses : ∀ result : SendResult, Decidable result.Closes
  | .accepts room => inferInstanceAs (Decidable (room = 0))
  | .again => isFalse id
  | .error => isTrue trivial

instance decidableTidy (res : Resource) (state : State) : ∀ event, Decidable (Tidy res state event)
  | .client fd (.write opened result) =>
    inferInstanceAs (Decidable ((opensFile res (state.conns fd) → opened ≠ none →
      (state.conns fd).wFileFd = none) ∧
        (fileAfterOpen res opened (state.conns fd) ≠ none → ¬ result.Closes)))
  | .client _ (.read _) => isTrue trivial
  | .listen _ _ => isTrue trivial

/-- A connection whose header has been sent. -/
def headerSent : List Event :=
  [.listen 3 (.accepted 5), .client 5 (.read (.received [65])),
    .client 5 (.write none (.accepts 100))]

/-- The file is sent in two pieces, with a full socket in between. -/
def tidySchedule : List Event :=
  List.flatten [headerSent, [.client 5 (.write (some 9) (.accepts 1000)),
    .client 5 (.write none .again), .client 5 (.write none (.accepts 5000))]]

theorem files_held_iff_tidySchedule :
    ∃ final, run (step imageResource) (State.start 3) tidySchedule = some final ∧
      final.files = [] ∧
      Throughout (step imageResource) (fun state ↦ Tally state.holding state.files)
        (State.start 3) tidySchedule := by
  have hview : (run (step imageResource) (State.start 3) tidySchedule).map
      (fun state ↦ state.files) = some [] := by decide +kernel
  obtain ⟨final, hrun, hfiles⟩ := exists_of_view hview
  have htidy : Along (step imageResource) (Tidy imageResource) (State.start 3) tidySchedule := by
    decide +kernel
  exact ⟨final, hrun, hfiles, (files_held_iff imageResource 3 hrun).mpr htidy⟩

/-- A step that is not tidy, behind steps that are, leaks a descriptor. -/
theorem not_tally_of_not_tidy {res : Resource} {listenfd : ℕ} {events : List Event}
    {event : Event} {middle final : State}
    (hrun : run (step res) (State.start listenfd) events = some middle)
    (htidy : Along (step res) (Tidy res) (State.start listenfd) events)
    (hstep : run (step res) middle [event] = some final) (huntidy : ¬ Tidy res middle event) :
    ¬ Tally final.holding final.files := by
  intro htally
  have hmiddle : Kept res middle :=
    run_invariant_along (fun _ _ _ hstate htidy hstep ↦
      kept_step hstate htidy (transition_of_step hstep)) (kept_start res listenfd) htidy hrun
  obtain ⟨next, hnext, hlast⟩ := run_cons_eq_some.mp hstep
  rw [run_nil, Option.some.injEq] at hlast
  subst hlast
  exact huntidy (tidy_of_tally hmiddle (transition_of_step hnext) htally)

/-- The socket is full when the file is to be sent for the first time. -/
def fullSocket : List Event := List.flatten [headerSent, [.client 5 (.write (some 9) .again)]]

/-- A byte of the file has been sent. -/
def fileStarted : List Event :=
  List.flatten [headerSent, [.client 5 (.write (some 9) (.accepts 1))]]

/-- The failures: a socket that is full right after the header makes the file be opened twice, with
descriptor 9 left in no slot, and a connection that breaks while its file is sent leaves
descriptor 9 open. -/
theorem files_leaked :
    (∃ middle final, run (step imageResource) (State.start 3) fullSocket = some middle ∧
      run (step imageResource) middle [.client 5 (.write (some 10) .again)] = some final ∧
      final.files = [10, 9] ∧ final.holding 5 = some 10 ∧ ¬ Tally final.holding final.files) ∧
    ∃ middle final, run (step imageResource) (State.start 3) fileStarted = some middle ∧
      run (step imageResource) middle [.client 5 (.write none .error)] = some final ∧
      final.files = [9] ∧ final.interest 5 = none ∧ ¬ Tally final.holding final.files := by
  constructor
  · have hmiddle : (run (step imageResource) (State.start 3) fullSocket).map (fun state ↦
        decide (Tidy imageResource state (.client 5 (.write (some 10) .again)))) =
          some false := by decide +kernel
    have hfinal : (run (step imageResource) (State.start 3) (fullSocket ++
        [.client 5 (.write (some 10) .again)])).map (fun state ↦ (state.files, state.holding 5)) =
          some ([10, 9], some 10) := by decide +kernel
    have htidy : Along (step imageResource) (Tidy imageResource) (State.start 3) fullSocket := by
      decide +kernel
    obtain ⟨middle, final, hrun, hstep, huntidy, hview⟩ := exists_of_views hmiddle hfinal
    obtain ⟨hfiles, hholding⟩ := Prod.mk.inj hview
    exact ⟨middle, final, hrun, hstep, hfiles, hholding,
      not_tally_of_not_tidy hrun htidy hstep (of_decide_eq_false huntidy)⟩
  · have hmiddle : (run (step imageResource) (State.start 3) fileStarted).map (fun state ↦
        decide (Tidy imageResource state (.client 5 (.write none .error)))) = some false := by
      decide +kernel
    have hfinal : (run (step imageResource) (State.start 3) (fileStarted ++
        [.client 5 (.write none .error)])).map (fun state ↦ (state.files, state.interest 5)) =
          some ([9], none) := by decide +kernel
    have htidy : Along (step imageResource) (Tidy imageResource) (State.start 3) fileStarted := by
      decide +kernel
    obtain ⟨middle, final, hrun, hstep, huntidy, hview⟩ := exists_of_views hmiddle hfinal
    obtain ⟨hfiles, hinterest⟩ := Prod.mk.inj hview
    exact ⟨middle, final, hrun, hstep, hfiles, hinterest,
      not_tally_of_not_tidy hrun htidy hstep (of_decide_eq_false huntidy)⟩

end TestLinux.Reactor
