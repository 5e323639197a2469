import TestLinux.Reactor.Slots

/-!
# The buffers of the reactor

The accesses that the callbacks make to the two buffers of a slot: `recv` and the terminator behind
its data in `read_callback`, and the one `memcpy` of `http_response`, with the conversions between
`size_t` and `int` that compute its length (`responseCopy`).

Two steps leave the buffers. A `recv` that fills the read buffer puts the terminator behind it. A
request that is read into a slot whose offset is behind the header sets the status of the header
without the offset, so that the next `write_callback` copies a negative number of bytes; such a slot
is one whose last owner was disconnected in the body of its response. `Careful` excludes these two
steps, and `accesses_inRange_iff` says that the accesses of a run, and of whatever `write_callback`
comes next, are in range exactly if its steps are careful.
-/

set_option autoImplicit false
set_option relaxedAutoImplicit false

namespace TestLinux.Reactor

open TestLinux.Runs TestLinux.Streams TestLinux.Wire

/-! ### The accesses -/

/-- The indices that `read_callback` writes in the read buffer: those of the data, and the one
behind them for the terminator. -/
def RecvResult.writes : RecvResult → List ℕ
  | .received data => if data.length = 0 then [] else List.range (data.length + 1)
  | .again => []
  | .error => []

/-- The strings that `http_response` keeps. -/
inductive Cached
  | header
  | file
  deriving DecidableEq

/-- The bytes of a cached string. -/
def Resource.cached (res : Resource) : Cached → List UInt8
  | .header => res.header
  | .file => res.file

/-- A `memcpy` to the front of the write buffer: what is read, from where, and how many bytes. -/
structure Copy where
  source : Cached
  start : ℤ
  length : ℤ
  deriving DecidableEq

/-- The copy has a length, fits the write buffer and stays inside what it reads. -/
def Copy.InRange (res : Resource) (copy : Copy) : Prop :=
  0 ≤ copy.start ∧ 0 ≤ copy.length ∧ copy.length ≤ bufferLength ∧
    copy.start + copy.length ≤ (res.cached copy.source).length
  deriving Decidable

/-- The `memcpy` in `fillBuffer`. The length of the rest of the header is narrowed to `int`; that of
the rest of the file is a `size_t`. -/
def fillCopy (res : Resource) (conn : Connection) : Option Copy :=
  match conn.wstatus with
  | .header => some ⟨.header, conn.woffset, toInt32 (res.header.length - conn.woffset)⟩
  | .body =>
    let offsetT := toInt32 (conn.woffset - res.header.length)
    some ⟨.file, offsetT, min ((res.file.length - offsetT) % 2 ^ 64) bufferLength⟩
  | .finished => none

/-- The `memcpy` that `http_response` calls, if it does. -/
def responseCopy (res : Resource) (conn : Connection) : Option Copy :=
  if opensFile res conn then none else fillCopy res (switched res conn)

/-- The accesses that an event makes to the buffers of its slot are in range. -/
def AccessesInRange (res : Resource) (state : State) : Event → Prop
  | .listen _ _ => True
  | .client fd (.read result) =>
    state.interest fd = some .recv → ∀ index ∈ result.writes, index < bufferLength
  | .client fd (.write _ _) =>
    state.interest fd = some .send → ∀ copy ∈ responseCopy res (state.conns fd), copy.InRange res

/-- A request is shorter than the read buffer, and its slot is not behind the header. -/
def Careful (res : Resource) (state : State) : Event → Prop
  | .client fd (.read (.received data)) =>
    data.length < bufferLength ∧
      (data.length ≠ 0 → (state.conns fd).woffset ≤ res.header.length)
  | .client _ (.read .again) => True
  | .client _ (.read .error) => True
  | .client _ (.write _ _) => True
  | .listen _ _ => True

/-! ### One call of `http_response` -/

theorem fillCopy_inRange {res : Resource} {conn : Connection}
    (hinHeader : conn.woffset < res.header.length → conn.wstatus = .header)
    (hinBody : res.header.length ≤ conn.woffset → conn.wstatus = .body)
    (hunfinished : conn.woffset < res.header.length + res.file.length) :
    ∀ copy ∈ fillCopy res conn, copy.InRange res := by
  have hheaderLength := res.header_lt
  have hfileLength := res.file_lt
  rw [bufferLength] at hheaderLength
  rcases Nat.lt_or_ge conn.woffset res.header.length with hheader | hbody
  · have hnum : toInt32 (res.header.length - conn.woffset) = res.header.length - conn.woffset :=
      toInt32_of_lt (by omega) (by omega)
    intro copy hcopy
    simp only [fillCopy, hinHeader hheader, hnum, Option.mem_some_iff] at hcopy
    subst hcopy
    refine ⟨Int.natCast_nonneg _, Int.sub_nonneg.mpr (by omega), ?_, ?_⟩
    · change (res.header.length : ℤ) - conn.woffset ≤ bufferLength
      rw [bufferLength]
      omega
    · change (conn.woffset : ℤ) + (res.header.length - conn.woffset) ≤ res.header.length
      omega
  · have hoffsetT : toInt32 (conn.woffset - res.header.length) = conn.woffset - res.header.length :=
      toInt32_of_lt (by omega) (by omega)
    have hrest : ((res.file.length : ℤ) - (conn.woffset - res.header.length)) % 2 ^ 64 =
        res.file.length - (conn.woffset - res.header.length) :=
      Int.emod_eq_of_lt (by omega) (by omega)
    intro copy hcopy
    simp only [fillCopy, hinBody hbody, hoffsetT, hrest, Option.mem_some_iff] at hcopy
    subst hcopy
    refine ⟨Int.sub_nonneg.mpr (by omega), ?_, Int.min_le_right _ _, ?_⟩
    · exact Int.le_min.mpr ⟨by omega, Int.natCast_nonneg _⟩
    · have hmin := Int.min_le_left (res.file.length - (conn.woffset - res.header.length) : ℤ)
        bufferLength
      change (conn.woffset - res.header.length : ℤ) + min _ _ ≤ res.file.length
      omega

/-- In a slot whose fields fit together, the `memcpy` is in range exactly if the status fits the
offset. -/
theorem Placed.responseCopy_inRange_iff {res : Resource} {conn : Connection}
    (hconn : Placed res conn) :
    (∀ copy ∈ responseCopy res conn, copy.InRange res) ↔ InBody res conn := by
  constructor
  · intro hrange
    by_contra hinBody
    obtain ⟨hbehind, hstatus⟩ := hconn.status_of_not_inBody hinBody
    have hswitch : conn.woffset ≠ res.header.length := Nat.ne_of_gt hbehind
    have hopens : ¬ opensFile res conn := fun hopens ↦ hswitch (hconn.opensFile_iff.mp hopens).1
    have hcopy : responseCopy res conn =
        some ⟨.header, conn.woffset, toInt32 (res.header.length - conn.woffset)⟩ := by
      rw [responseCopy, if_neg hopens, hconn.switched_eq, if_neg hswitch, fillCopy]
      simp only [hstatus]
    have hlength := (hrange _ hcopy).2.1
    exact absurd (hconn.toInt32_neg hbehind) (Int.not_lt.mpr hlength)
  · intro hinBody copy hcopy
    obtain ⟨hheaderStatus, hbodyStatus⟩ := hconn.switched_status hinBody
    rw [responseCopy, Option.mem_def, Option.ite_none_left_eq_some] at hcopy
    rw [hconn.switched_eq] at hheaderStatus hbodyStatus hcopy
    refine fillCopy_inRange ?_ ?_ ?_ copy hcopy.2
    · exact hheaderStatus
    · exact hbodyStatus
    · exact hconn.unfinished

/-- Where the `memcpy` is in range, and only there, `write_callback` returns. -/
theorem Placed.writeCallback_isSome_iff {res : Resource} {conn : Connection}
    (hconn : Placed res conn) (fd : ℕ) (opened : Option ℕ) (result : SendResult) :
    (Reactor.writeCallback res fd opened result conn).isSome ↔
      ∀ copy ∈ responseCopy res conn, copy.InRange res := by
  rw [hconn.responseCopy_inRange_iff, Reactor.writeCallback, Option.isSome_map]
  constructor
  · intro hsome
    obtain ⟨returned, hresponse⟩ := Option.isSome_iff_exists.mp hsome
    exact hconn.inBody_of_some hresponse
  · intro hinBody
    obtain ⟨code, loaded, hresponse, -⟩ := hconn.httpResponse hinBody opened
    rw [hresponse]
    rfl

/-! ### Careful runs -/

/-- In every slot the fields fit together, the status with the offset included. -/
def Bounded (res : Resource) (state : State) : Prop :=
  ∀ fd, Placed res (state.conns fd) ∧ InBody res (state.conns fd)

theorem bounded_start (res : Resource) (listenfd : ℕ) : Bounded res (State.start listenfd) := by
  refine fun fd ↦ ⟨placed_start res listenfd fd, fun hbehind ↦ ?_⟩
  have hoffset : ((State.start listenfd).conns fd).woffset = 0 := by
    by_cases hfd : fd = listenfd
    · subst hfd
      simp [State.start, Connection.unused]
    · simp [State.start, hfd, Connection.unused]
  rw [hoffset] at hbehind
  exact absurd hbehind (Nat.not_lt_zero _)

/-- A request keeps the status in step with the offset if the slot is not behind the header. -/
theorem InBody.readCallback {res : Resource} {conn : Connection} {result : RecvResult}
    (hinBody : InBody res conn)
    (hrequest : result.requests ≠ 0 → conn.woffset ≤ res.header.length) :
    InBody res (readCallback result conn).1 := by
  cases result with
  | again => exact hinBody
  | error => exact hinBody
  | received data =>
    simp only [Reactor.readCallback]
    split_ifs with hdata
    · exact hinBody
    · intro hbehind
      have hoffset := hrequest (by simp [RecvResult.requests, hdata])
      exact absurd hbehind (Nat.not_lt.mpr hoffset)

theorem Careful.offset_le {res : Resource} {state : State} {fd : ℕ} {result : RecvResult}
    (hcareful : Careful res state (.client fd (.read result))) (hrequest : result.requests ≠ 0) :
    (state.conns fd).woffset ≤ res.header.length := by
  cases result with
  | again => exact absurd rfl hrequest
  | error => exact absurd rfl hrequest
  | received data =>
    refine hcareful.2 fun hdata ↦ hrequest ?_
    rw [RecvResult.requests, if_pos hdata]

theorem bounded_step {res : Resource} {state next : State} {event : Event}
    (hstate : Bounded res state) (hcareful : Careful res state event)
    (hstep : Transition res state event next) : Bounded res next := by
  refine fun fd ↦ ⟨placed_step (fun other ↦ (hstate other).1) hstep fd, ?_⟩
  have hinBody : ∀ other, InBody res (state.conns other) := fun other ↦ (hstate other).2
  cases hstep with
  | idle => exact hinBody fd
  | @accept _ clientfd hunopened =>
    exact forall_update hinBody (show InBody res (registerClinetfd clientfd _) from
      hinBody clientfd) fd
  | @read client result hinterest hcount =>
    exact forall_update hinBody ((hinBody client).readCallback hcareful.offset_le) fd
  | @write client opened result written hinterest hopened hcallback =>
    obtain ⟨loaded, hready, -, houtcome, -⟩ := (hstate client).1.writeCallback hcallback
    exact forall_update hinBody (houtcome.placed hready).2 fd

/-- The accesses of a careful event. -/
theorem accessesInRange_of_careful {res : Resource} {state : State} {event : Event}
    (hstate : Bounded res state) (hcareful : Careful res state event) :
    AccessesInRange res state event := by
  cases event with
  | listen fd result => trivial
  | client fd dispatch =>
    cases dispatch with
    | write opened result =>
      intro _
      exact (hstate fd).1.responseCopy_inRange_iff.mpr (hstate fd).2
    | read result =>
      intro _ index hindex
      cases result with
      | again => exact absurd hindex List.not_mem_nil
      | error => exact absurd hindex List.not_mem_nil
      | received data =>
        rw [RecvResult.writes] at hindex
        split_ifs at hindex
        · exact absurd hindex List.not_mem_nil
        · exact Nat.lt_of_le_of_lt (Nat.le_of_lt_succ (List.mem_range.mp hindex)) hcareful.1

/-! ### Steps that are not careful -/

/-- The slot of an open socket waits for a `write_callback` that copies a negative number of
bytes. -/
structure Stranded (res : Resource) (state : State) (fd : ℕ) : Prop where
  interest : state.interest fd = some .send
  placed : Placed res (state.conns fd)
  notInBody : ¬ InBody res (state.conns fd)

theorem Stranded.of_eq {res : Resource} {state next : State} {fd : ℕ}
    (hstate : Stranded res state fd) (hinterest : next.interest fd = state.interest fd)
    (hconn : next.conns fd = state.conns fd) : Stranded res next fd where
  interest := hinterest.trans hstate.interest
  placed := by
    rw [hconn]
    exact hstate.placed
  notInBody := by
    rw [hconn]
    exact hstate.notInBody

/-- Only the callback that does not return could change such a slot. -/
theorem stranded_step {res : Resource} {state next : State} {event : Event} {fd : ℕ}
    (hstate : Stranded res state fd) (hstep : Transition res state event next) :
    Stranded res next fd := by
  cases hstep with
  | idle => exact hstate
  | @accept _ clientfd hunopened =>
    have hne : fd ≠ clientfd := by
      rintro rfl
      exact absurd (hunopened.1.symm.trans hstate.interest) (by simp)
    exact hstate.of_eq (Function.update_of_ne hne _ _) (Function.update_of_ne hne _ _)
  | @read client result hinterest hcount =>
    have hne : fd ≠ client := by
      rintro rfl
      exact absurd (hinterest.symm.trans hstate.interest) (by simp)
    exact hstate.of_eq (Function.update_of_ne hne _ _) (Function.update_of_ne hne _ _)
  | @write client opened result written hinterest hopened hcallback =>
    have hne : fd ≠ client := by
      rintro rfl
      have hdefined := (hstate.placed.writeCallback_isSome_iff fd opened result).mp
        (Option.isSome_iff_exists.mpr ⟨written, hcallback⟩)
      exact hstate.notInBody (hstate.placed.responseCopy_inRange_iff.mp hdefined)
    exact hstate.of_eq (Function.update_of_ne hne _ _) (Function.update_of_ne hne _ _)

/-- A request that is read into a slot behind the header. -/
theorem stranded_afterRead {res : Resource} {state : State} {fd : ℕ} {data : List UInt8}
    (hplaced : Placed res (state.conns fd)) (hdata : data.length ≠ 0)
    (hbehind : res.header.length < (state.conns fd).woffset) :
    Stranded res (state.afterRead fd (.received data)) fd where
  interest := by simp [State.afterRead, readCallback, hdata, Next.apply]
  placed := by
    simp only [State.afterRead, Function.update_self]
    exact hplaced.readCallback _
  notInBody := by
    simp only [State.afterRead, Function.update_self, readCallback, if_neg hdata]
    exact fun hinBody ↦ absurd (hinBody hbehind) (by simp [httpRequest])

/-- If the accesses of a run and of the next `write_callback` are in range, its steps are careful.
The induction is over the run: a step that strands its slot shows in the last state, since no later
event can change the slot. -/
theorem careful_of_accessesInRange {res : Resource} {start final : State} {events : List Event}
    (hstart : ∀ fd, Placed res (start.conns fd))
    (hrun : run (step res) start events = some final)
    (haccesses : Along (step res) (AccessesInRange res) start events)
    (hnext : ∀ fd opened result, AccessesInRange res final (.client fd (.write opened result))) :
    Along (step res) (Careful res) start events := by
  induction events generalizing start with
  | nil => trivial
  | cons event rest ih =>
    obtain ⟨next, hstep, hrest⟩ := run_cons_eq_some.mp hrun
    obtain ⟨haccess, hlater⟩ := along_cons hstep haccesses
    have htransition := transition_of_step hstep
    refine (along_cons_iff hstep).mpr ⟨?_, ih (placed_step hstart htransition) hrest hlater⟩
    cases htransition with
    | idle => trivial
    | accept hunopened => trivial
    | write hinterest hopened hcallback => trivial
    | @read fd result hinterest hcount =>
      cases result with
      | again => trivial
      | error => trivial
      | received data =>
        by_cases hdata : data.length = 0
        · refine ⟨?_, fun hne ↦ absurd hdata hne⟩
          rw [hdata, bufferLength]
          decide
        · refine ⟨haccess hinterest data.length ?_, fun _ ↦ ?_⟩
          · rw [RecvResult.writes, if_neg hdata]
            exact List.mem_range.mpr (Nat.lt_succ_self _)
          · by_contra hbehind
            have hstranded := stranded_afterRead (hstart fd) hdata (Nat.not_le.mp hbehind)
            have hfinal : Stranded res final fd :=
              run_invariant (fun _ _ _ hstate hlaterStep ↦
                stranded_step hstate (transition_of_step hlaterStep)) hstranded hrest
            exact hfinal.notInBody (hfinal.placed.responseCopy_inRange_iff.mp
              (hnext fd none .again hfinal.interest))

/-! ### Accesses in range -/

/-- In every run of the reactor, all accesses to the buffers, those of the next `write_callback`
included, are in range exactly if each request that was read is shorter than the read buffer and was
read into a slot whose offset is not behind the header. Nothing is assumed about `open`, `send` and
the reuse of descriptors. -/
theorem accesses_inRange_iff (res : Resource) (listenfd : ℕ) {events : List Event} {final : State}
    (hrun : run (step res) (State.start listenfd) events = some final) :
    (Along (step res) (AccessesInRange res) (State.start listenfd) events ∧
      ∀ fd opened result, AccessesInRange res final (.client fd (.write opened result))) ↔
      Along (step res) (Careful res) (State.start listenfd) events := by
  constructor
  · rintro ⟨haccesses, hnext⟩
    exact careful_of_accessesInRange (placed_start res listenfd) hrun haccesses hnext
  · intro hcareful
    have hstep : ∀ state event next, Bounded res state → Careful res state event →
        step res state event = some next → Bounded res next :=
      fun _ _ _ hstate hallowed hstep ↦ bounded_step hstate hallowed (transition_of_step hstep)
    have hstart := bounded_start res listenfd
    refine ⟨hcareful.of_invariant hstep (fun _ _ _ hstate hallowed _ ↦
      accessesInRange_of_careful hstate hallowed) hstart hrun, fun fd opened result ↦ ?_⟩
    exact accessesInRange_of_careful (run_invariant_along hstep hstart hcareful hrun) trivial

instance decidableCareful (res : Resource) (state : State) :
    ∀ event, Decidable (Careful res state event)
  | .client fd (.read (.received data)) =>
    inferInstanceAs (Decidable (data.length < bufferLength ∧
      (data.length ≠ 0 → (state.conns fd).woffset ≤ res.header.length)))
  | .client _ (.read .again) => isTrue trivial
  | .client _ (.read .error) => isTrue trivial
  | .client _ (.write _ _) => isTrue trivial
  | .listen _ _ => isTrue trivial

theorem accesses_inRange_iff_orderlySchedule :
    ∃ final, run (step byteResource) (State.start 3) orderlySchedule = some final ∧
      Along (step byteResource) (AccessesInRange byteResource) (State.start 3) orderlySchedule := by
  have hview : (run (step byteResource) (State.start 3) orderlySchedule).map
      (fun state ↦ state.sent 5) = some [72] := by decide +kernel
  obtain ⟨final, hrun, -⟩ := exists_of_view hview
  have hcareful : Along (step byteResource) (Careful byteResource) (State.start 3)
      orderlySchedule := by decide +kernel
  exact ⟨final, hrun, ((accesses_inRange_iff byteResource 3 hrun).mpr hcareful).1⟩

/-- A request that fills the read buffer. -/
def fillingSchedule : List Event :=
  [.listen 3 (.accepted 5), .client 5 (.read (.received (List.replicate 1024 65)))]

/-- A file of two bytes with the header of the source, which has 82 bytes. -/
def pairResource : Resource := .ofFile [7, 8] (by decide) (by decide)

/-- A peer disconnects after the header and one byte of the file, and its descriptor is used
again. -/
def abandonedSchedule : List Event :=
  [.listen 3 (.accepted 5), .client 5 (.read (.received [65])),
    .client 5 (.write none (.accepts 100)), .client 5 (.write none (.accepts 1)),
    .client 5 (.write none .error), .listen 3 (.accepted 5), .client 5 (.read (.received [65]))]

/-- The failures: a request of 1024 bytes has its terminator written at index 1024, and a request on
a descriptor whose last response stopped in the body makes `http_response` copy -1 bytes. -/
theorem accesses_out_of_range :
    (∃ final, run (step byteResource) (State.start 3) fillingSchedule = some final ∧
      ¬ Along (step byteResource) (AccessesInRange byteResource) (State.start 3)
        fillingSchedule) ∧
    ∃ final, run (step pairResource) (State.start 3) abandonedSchedule = some final ∧
      responseCopy pairResource (final.conns 5) = some ⟨.header, 83, -1⟩ ∧
      ¬ AccessesInRange pairResource final (.client 5 (.write none .again)) := by
  constructor
  · have hview : (run (step byteResource) (State.start 3) fillingSchedule).map
        (fun state ↦ (state.conns 5).rlength) = some 1024 := by decide +kernel
    obtain ⟨final, hrun, -⟩ := exists_of_view hview
    have hmiddle : (run (step byteResource) (State.start 3) [.listen 3 (.accepted 5)]).map
        (fun state ↦ state.interest 5) = some (some .recv) := by decide +kernel
    obtain ⟨middle, hfirst, hinterest⟩ := exists_of_view hmiddle
    refine ⟨final, hrun, fun haccesses ↦ ?_⟩
    have hwrites : 1024 ∈ (RecvResult.received (List.replicate 1024 65)).writes := by
      rw [RecvResult.writes, List.length_replicate, if_neg (by decide)]
      exact List.mem_range.mpr (Nat.lt_succ_self _)
    exact absurd ((along_append hfirst haccesses).2.1 hinterest 1024 hwrites) (by decide)
  · have hview : (run (step pairResource) (State.start 3) abandonedSchedule).map
        (fun state ↦ (state.interest 5, responseCopy pairResource (state.conns 5))) =
        some (some .send, some ⟨.header, 83, -1⟩) := by decide +kernel
    obtain ⟨final, hrun, hseen⟩ := exists_of_view hview
    obtain ⟨hinterest, hcopy⟩ := Prod.mk.inj hseen
    refine ⟨final, hrun, hcopy, fun haccess ↦ ?_⟩
    exact absurd (haccess hinterest _ hcopy).2.1 (by decide)

end TestLinux.Reactor
