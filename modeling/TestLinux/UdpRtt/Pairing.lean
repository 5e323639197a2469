import TestLinux.UdpRtt.Model

/-!
# Which message a sample belongs to

The first text that the server sends to a client is the notice that the client has joined: the
server opens the session when the first datagram arrives, enters it into `users_` and notifies all
of them. `HandleMessage` takes it for the answer to the first message. From then on the samples are
off by at least one: the echo of the first message is measured from the start of the second one,
which may be in the same millisecond (`join_is_sampled`).

`Tuned` says what is known of a client in every state of a run, and `paired_iff` that the samples of
a client belong to its messages only as long as there is none.
-/

set_option autoImplicit false
set_option relaxedAutoImplicit false

namespace TestLinux.UdpRtt

open TestLinux.Runs TestLinux.Kcp

/-! ### The first text of a session -/

theorem map_call_numbered (calls : List Call) : (numbered calls).map Text.call = calls := by
  refine List.ext_getElem? fun index ↦ ?_
  rw [List.getElem?_map, numbered, List.getElem?_mapIdx, Option.map_map]
  exact Option.map_id'

/-- A session that no call has notified so far is no member. -/
theorem not_mem_membersAfter {server : Server Endpoint} (hlogged : Logged server) {id : ℕ}
    {front back : List Call} (hcalls : server.calls = front ++ back)
    (hfront : ∀ call ∈ front, id ∉ call.users) : id ∉ membersAfter front := by
  rcases List.eq_nil_or_concat front with rfl | ⟨init, last, rfl⟩
  · exact Finset.notMem_empty id
  · rw [List.concat_eq_append, List.append_assoc, List.singleton_append] at hcalls
    rw [List.concat_eq_append] at hfront ⊢
    rw [← hlogged.notified init last back hcalls]
    exact hfront last (List.mem_append_right _ (List.mem_singleton_self last))

/-- The first text of a session is the notice of its own joining. -/
theorem join_of_textsTo {server : Server Endpoint} (hlogged : Logged server) {id : ℕ} {text : Text}
    {rest : List Text} (htexts : textsTo id server.calls = text :: rest) :
    text.call.notice = .join ∧ text.call.session = id := by
  obtain ⟨front, back, hsplit, hfront, htext, -⟩ := List.filter_eq_cons_iff.mp htexts
  have hcalls : server.calls = front.map Text.call ++ text.call :: back.map Text.call := by
    rw [← map_call_numbered server.calls, hsplit, List.map_append, List.map_cons]
  have hnone : ∀ call ∈ front.map Text.call, id ∉ call.users := by
    intro call hcall
    obtain ⟨earlier, hearlier, rfl⟩ := List.mem_map.mp hcall
    simpa using hfront earlier hearlier
  have hbefore := not_mem_membersAfter hlogged hcalls hnone
  have hafter : id ∈ text.call.after (membersAfter (front.map Text.call)) := by
    rw [← membersAfter_append, ← hlogged.notified _ _ _ hcalls]
    simpa using htext
  unfold Call.after at hafter
  cases hnotice : text.call.notice with
  | join =>
    rw [hnotice] at hafter
    rcases Finset.mem_insert.mp hafter with hid | hmember
    · exact ⟨rfl, hid.symm⟩
    · exact absurd hmember hbefore
  | message msg =>
    rw [hnotice] at hafter
    exact absurd hafter hbefore
  | leave =>
    rw [hnotice] at hafter
    exact absurd (Finset.mem_of_mem_erase hafter) hbefore

/-! ### What a step of a client can do -/

/-- The text whose sample has not been taken yet. -/
def Receiver.handling : Receiver → List Text
  | .handle text => [text]
  | _ => []

/-- The text whose sample has been taken and whose notification is still to come. -/
def Receiver.announcing : Receiver → List Text
  | .lock text => [text]
  | .notify text => [text]
  | _ => []

/-- The texts that have arrived, in their order. -/
def ChatClient.heard (client : ChatClient) : List Text :=
  client.samples.map Sample.text ++ client.receiver.handling ++ client.inbox

/-- The texts that have woken the sender or are about to. -/
def ChatClient.notified (client : ChatClient) : List Text :=
  client.released ++ client.receiver.announcing

/-- What a step can do: nothing that matters, texts arrive from a session, or a sample is taken. -/
inductive Acts (server : Server Endpoint) (client : ChatClient) : Action → ChatClient → Prop
  | stay {action : Action} {next : ChatClient} (haction : ∀ current, action ≠ .handle current)
      (hsamples : next.samples = client.samples) (hheard : next.heard = client.heard)
      (hreceived : next.received = client.received)
      (hnotified : ∀ text ∈ next.notified, text ∈ client.notified) : Acts server client action next
  | arrive {current : ℤ} {arrival : Option (ℕ × List UInt8 × ℕ)} {next : ChatClient} (id count : ℕ)
      (hsamples : next.samples = client.samples)
      (hheard : next.heard = client.heard ++ client.arriving server id count)
      (hreceived : next.received = Function.update client.received id
        (client.received id + (client.arriving server id count).length))
      (hnotified : next.notified = client.notified) :
    Acts server client (.run current arrival) next
  | handle {current : ℤ} {next : ChatClient} (sample : Sample)
      (hsamples : next.samples = client.samples ++ [sample]) (hheard : next.heard = client.heard)
      (hreceived : next.received = client.received)
      (hnotified : next.notified = client.released ++ [sample.text]) :
    Acts server client (.handle current) next

/-- What a step of the sender, or a step of the receiver that takes no text, leaves alone. -/
structure Quiet (client next : ChatClient) : Prop where
  samples : next.samples = client.samples
  inbox : next.inbox = client.inbox
  receiver : next.receiver = client.receiver
  received : next.received = client.received
  released : next.released = client.released

section Acts

variable {server : Server Endpoint} {client next : ChatClient} {gLoopNum : ℤ}

theorem Quiet.acts (hquiet : Quiet client next) {action : Action}
    (haction : ∀ current, action ≠ .handle current) : Acts server client action next := by
  refine .stay haction hquiet.samples ?_ hquiet.received fun text htext ↦ ?_
  · rw [ChatClient.heard, hquiet.samples, hquiet.inbox, hquiet.receiver, ChatClient.heard]
  · rw [ChatClient.notified, hquiet.released, hquiet.receiver] at htext
    exact htext

theorem quiet_of_send {current : ℤ} (hsend : client.send current = some next) :
    Quiet client next := by
  unfold ChatClient.send at hsend
  split at hsend
  case h_1 | h_6 =>
    obtain ⟨-, hnext⟩ := Option.ite_none_right_eq_some.mp hsend
    exact Option.some.inj hnext ▸ ⟨rfl, rfl, rfl, rfl, rfl⟩
  case h_5 => cases hsend
  all_goals exact Option.some.inj hsend ▸ ⟨rfl, rfl, rfl, rfl, rfl⟩

theorem acts_of_run {current : ℤ} {arrival : Option (ℕ × List UInt8 × ℕ)}
    (hrun : client.run server current arrival = some next) :
    Acts server client (.run current arrival) next := by
  unfold ChatClient.run at hrun
  obtain ⟨⟨hidle, -⟩, hrun⟩ := Option.ite_none_right_eq_some.mp hrun
  dsimp only at hrun
  have hquiet (hnext : Quiet client next) : Acts server client (.run current arrival) next :=
    hnext.acts fun _ h ↦ Action.noConfusion h
  split_ifs at hrun
  · exact hquiet (Option.some.inj hrun ▸ ⟨rfl, rfl, rfl, rfl, rfl⟩)
  · rcases arrival with _ | ⟨id, bytes, count⟩
    · exact hquiet (Option.some.inj hrun ▸ ⟨rfl, rfl, rfl, rfl, rfl⟩)
    · dsimp only at hrun
      split_ifs at hrun
      · exact hquiet (Option.some.inj hrun ▸ ⟨rfl, rfl, rfl, rfl, rfl⟩)
      · exact hquiet (Option.some.inj hrun ▸ ⟨rfl, rfl, rfl, rfl, rfl⟩)
      · obtain rfl := Option.some.inj hrun
        refine .arrive id count rfl ?_ rfl ?_
        · simp [ChatClient.heard, Receiver.handling, hidle]
        · simp [ChatClient.notified, Receiver.announcing, hidle]

theorem acts_of_recv (hrecv : client.recv = some next) : Acts server client .recv next := by
  have haction : ∀ current, Action.recv ≠ .handle current := fun _ h ↦ Action.noConfusion h
  unfold ChatClient.recv at hrecv
  obtain ⟨hloop, hrecv⟩ := Option.ite_none_right_eq_some.mp hrecv
  split at hrecv
  · rename_i hinbox
    obtain rfl := Option.some.inj hrecv
    refine .stay haction rfl ?_ rfl fun text htext ↦ ?_
    · simp [ChatClient.heard, Receiver.handling, hloop]
    · simpa [ChatClient.notified, Receiver.announcing, hloop] using htext
  · rename_i text rest hinbox
    split_ifs at hrecv
    · exact Quiet.acts (Option.some.inj hrecv ▸ ⟨rfl, rfl, rfl, rfl, rfl⟩) haction
    · obtain rfl := Option.some.inj hrecv
      refine .stay haction rfl ?_ rfl fun text htext ↦ ?_
      · simp [ChatClient.heard, Receiver.handling, hloop, hinbox]
      · simpa [ChatClient.notified, Receiver.announcing, hloop] using htext

theorem acts_of_handle {text : Text} (hreceiver : client.receiver = .handle text) (current : ℤ) :
    Acts server client (.handle current) (client.handleMessage gLoopNum text current) := by
  have hsamples : (client.handleMessage gLoopNum text current).samples =
      client.samples ++ [⟨current - client.startTime, current, text⟩] := by
    unfold ChatClient.handleMessage
    dsimp only
    split_ifs <;> rfl
  have hrest : (client.handleMessage gLoopNum text current).receiver = .lock text ∧
      (client.handleMessage gLoopNum text current).inbox = client.inbox ∧
      (client.handleMessage gLoopNum text current).received = client.received ∧
      (client.handleMessage gLoopNum text current).released = client.released := by
    unfold ChatClient.handleMessage
    dsimp only
    split_ifs <;> exact ⟨rfl, rfl, rfl, rfl⟩
  obtain ⟨hlock, hinbox, hreceived, hreleased⟩ := hrest
  refine .handle _ hsamples ?_ hreceived ?_
  · simp [ChatClient.heard, Receiver.handling, hsamples, hlock, hinbox, hreceiver]
  · rw [ChatClient.notified, hreleased, hlock]
    rfl

theorem acts_of_finish (hfinish : client.finish = some next) : Acts server client .finish next := by
  have haction : ∀ current, Action.finish ≠ .handle current := fun _ h ↦ Action.noConfusion h
  unfold ChatClient.finish at hfinish
  split at hfinish
  · rename_i text hlock
    obtain ⟨-, hnext⟩ := Option.ite_none_right_eq_some.mp hfinish
    obtain rfl := Option.some.inj hnext
    refine .stay haction rfl ?_ rfl fun other hother ↦ ?_
    · simp [ChatClient.heard, Receiver.handling, hlock]
    · simpa [ChatClient.notified, Receiver.announcing, hlock] using hother
  · rename_i text hnotify
    split_ifs at hfinish
    · obtain rfl := Option.some.inj hfinish
      refine .stay haction rfl ?_ rfl fun other hother ↦ ?_
      · simp [ChatClient.heard, Receiver.handling, hnotify]
      · simpa [ChatClient.notified, Receiver.announcing, hnotify] using hother
    · obtain rfl := Option.some.inj hfinish
      refine .stay haction rfl ?_ rfl fun other hother ↦ ?_
      · simp [ChatClient.heard, Receiver.handling, hnotify]
      · simp only [ChatClient.notified, Receiver.announcing, List.append_nil] at hother
        exact List.mem_append_left _ hother
  · rename_i hunlock
    obtain rfl := Option.some.inj hfinish
    refine .stay haction rfl ?_ rfl fun other hother ↦ ?_
    · simp [ChatClient.heard, Receiver.handling, hunlock]
    · simpa [ChatClient.notified, Receiver.announcing, hunlock] using hother
  · cases hfinish

theorem acts_of_act {action : Action} (hact : client.act gLoopNum server action = some next) :
    Acts server client action next := by
  unfold ChatClient.act at hact
  obtain ⟨-, hact⟩ := Option.ite_none_left_eq_some.mp hact
  cases action with
  | send current => exact (quiet_of_send hact).acts fun _ h ↦ Action.noConfusion h
  | wake =>
    obtain ⟨-, hnext⟩ := Option.ite_none_right_eq_some.mp hact
    exact Quiet.acts (Option.some.inj hnext ▸ ⟨rfl, rfl, rfl, rfl, rfl⟩)
      fun _ h ↦ Action.noConfusion h
  | run current arrival => exact acts_of_run hact
  | recv => exact acts_of_recv hact
  | handle current =>
    dsimp only at hact
    split at hact
    · rename_i text hreceiver
      exact Option.some.inj hact ▸ acts_of_handle hreceiver current
    · cases hact
  | finish => exact acts_of_finish hact

end Acts

/-! ### The invariant -/

/-- What is known of a client: the first text that has arrived is a notice of joining, a client to
which no text has arrived expects the first one of every session, and the sender is woken for texts
whose sample has been taken. -/
structure Tuned (client : ChatClient) : Prop where
  first : ∀ text ∈ client.heard.head?, text.call.notice = .join
  fresh : client.heard = [] → ∀ id, client.received id = 0
  notified : ∀ text ∈ client.notified, text ∈ client.samples.map Sample.text

theorem tuned_start (conv : UInt32) (serverAddr : SockAddr) :
    Tuned (.start conv serverAddr) where
  first := fun _ htext ↦ absurd htext (by simp [ChatClient.heard, ChatClient.start,
    Receiver.handling])
  fresh := fun _ _ ↦ rfl
  notified := fun _ htext ↦ absurd htext List.not_mem_nil

theorem tuned_act {gLoopNum : ℤ} {server : Server Endpoint} {client next : ChatClient}
    {action : Action} (htuned : Tuned client) (hlogged : Logged server)
    (hact : client.act gLoopNum server action = some next) : Tuned next := by
  cases acts_of_act hact with
  | stay haction hsamples hheard hreceived hnotified =>
    refine ⟨hheard ▸ htuned.first, ?_, fun text htext ↦ ?_⟩
    · rw [hheard, hreceived]
      exact htuned.fresh
    · rw [hsamples]
      exact htuned.notified text (hnotified text htext)
  | arrive id count hsamples hheard hreceived hnotified =>
    refine ⟨fun text htext ↦ ?_, fun hnil other ↦ ?_, fun text htext ↦ ?_⟩
    · rw [hheard, List.head?_append] at htext
      rcases hold : client.heard with _ | ⟨first, rest⟩
      · -- the first text of all is the first one of its session
        rw [hold, List.head?_nil, Option.none_or, ChatClient.arriving,
          htuned.fresh hold id, List.drop_zero] at htext
        cases htexts : textsTo id server.calls with
        | nil => simp [htexts] at htext
        | cons head tail =>
          have hhead : text = head := by
            rw [htexts, List.head?_take] at htext
            split_ifs at htext
            · cases htext
            · exact (Option.some.inj htext).symm
          exact hhead ▸ (join_of_textsTo hlogged htexts).1
      · rw [hold, List.head?_cons, Option.some_or] at htext
        exact htuned.first text (hold ▸ htext)
    · rw [hheard, List.append_eq_nil_iff] at hnil
      rw [hreceived, hnil.2, List.length_nil, Nat.add_zero, Function.update_eq_self]
      exact htuned.fresh hnil.1 other
    · rw [hsamples]
      exact htuned.notified text (hnotified ▸ htext)
  | handle sample hsamples hheard hreceived hnotified =>
    refine ⟨hheard ▸ htuned.first, ?_, fun text htext ↦ ?_⟩
    · rw [hheard, hreceived]
      exact htuned.fresh
    · rw [hsamples, List.map_append, List.mem_append]
      rw [hnotified, List.mem_append] at htext
      rcases htext with hold | hnew
      · exact .inl (htuned.notified text (List.mem_append_left _ hold))
      · exact .inr hnew

/-- What holds in every state of a run. -/
structure Sound (system : System) : Prop where
  room : Room system.server
  logged : Logged system.server
  clients : ∀ index, Tuned (system.clients index)
  echoes : ∀ index, ∀ text ∈ system.echoes index, text.isMessage = true

theorem sound_start (site : Site) : Sound (System.start site) where
  room := room_start chatOpt
  logged := logged_start rfl
  clients := fun index ↦ tuned_start (site.conv index) site.serverAddr
  echoes := fun _ _ htext ↦ absurd htext List.not_mem_nil

section Sound

variable {site : Site} {gLoopNum : ℤ} {system next : System}

/-- One client changes. -/
theorem Sound.update (hsound : Sound system) {index : ℕ} {client : ChatClient}
    (hclient : Tuned client) :
    ∀ other, Tuned (Function.update system.clients index client other) := by
  intro other
  by_cases hother : other = index
  · rw [hother, Function.update_self]
    exact hclient
  · rw [Function.update_of_ne hother]
    exact hsound.clients other

/-- The messages of a client leave it. -/
theorem Tuned.deliver {client : ChatClient} (htuned : Tuned client) (session : Session Endpoint) :
    Tuned { client with session := session } :=
  ⟨htuned.first, htuned.fresh, htuned.notified⟩

theorem sound_step {event : Event} (hsound : Sound system)
    (hstep : systemStep site gLoopNum system event = some next) : Sound next := by
  cases event with
  | client index action =>
    obtain ⟨client, hact, rfl⟩ := Option.map_eq_some_iff.mp hstep
    have htuned := tuned_act (hsound.clients index) hsound.logged hact
    exact ⟨hsound.room, hsound.logged, hsound.update htuned, hsound.echoes⟩
  | receive index bytes count clock =>
    obtain ⟨-, hstep⟩ := Option.ite_none_right_eq_some.mp hstep
    obtain ⟨server, hserver, rfl⟩ := Option.map_eq_some_iff.mp hstep
    obtain ⟨hroom, hlogged⟩ := room_and_logged_step ⟨hsound.room, hsound.logged⟩ hserver
    refine ⟨hroom, hlogged, hsound.update ((hsound.clients index).deliver _),
      fun other text htext ↦ ?_⟩
    by_cases hother : other = index
    · rw [hother] at htext
      dsimp only at htext
      rw [Function.update_self, List.mem_append] at htext
      rcases htext with hold | hnew
      · exact hsound.echoes index text hold
      · exact (List.mem_filter.mp hnew).2
    · dsimp only at htext
      rw [Function.update_of_ne hother] at htext
      exact hsound.echoes other text htext
  | tick order =>
    obtain ⟨server, hserver, rfl⟩ := Option.map_eq_some_iff.mp hstep
    obtain ⟨hroom, hlogged⟩ := room_and_logged_step ⟨hsound.room, hsound.logged⟩ hserver
    exact ⟨hroom, hlogged, hsound.clients, hsound.echoes⟩

/-- A step takes a sample of a client exactly if the client handles a text. -/
theorem samples_step {event : Event} (hstep : systemStep site gLoopNum system event = some next)
    (index : ℕ) :
    (next.clients index).samples = [] ↔
      (system.clients index).samples = [] ∧ ∀ current, event ≠ .client index (.handle current) := by
  cases event with
  | client other action =>
    obtain ⟨client, hact, rfl⟩ := Option.map_eq_some_iff.mp hstep
    by_cases hother : index = other
    · subst hother
      dsimp only
      rw [Function.update_self]
      cases acts_of_act hact with
      | stay haction hsamples =>
        rw [hsamples]
        exact (and_iff_left fun current h ↦ haction current (Event.client.inj h).2).symm
      | arrive id count hsamples =>
        rw [hsamples]
        exact (and_iff_left fun current h ↦ Action.noConfusion (Event.client.inj h).2).symm
      | handle sample hsamples =>
        rw [hsamples]
        constructor
        · intro h
          exact absurd h (by simp)
        · rintro ⟨-, hnone⟩
          exact absurd rfl (hnone _)
    · dsimp only
      rw [Function.update_of_ne hother]
      exact (and_iff_left fun current h ↦ hother (Event.client.inj h).1.symm).symm
  | receive other bytes count clock =>
    obtain ⟨-, hstep⟩ := Option.ite_none_right_eq_some.mp hstep
    obtain ⟨server, -, rfl⟩ := Option.map_eq_some_iff.mp hstep
    refine Iff.trans (Eq.congr_left ?_) (and_iff_left fun _ h ↦ Event.noConfusion h).symm
    by_cases hother : index = other
    · subst hother
      dsimp only
      rw [Function.update_self]
    · dsimp only
      rw [Function.update_of_ne hother]
  | tick order =>
    obtain ⟨server, -, rfl⟩ := Option.map_eq_some_iff.mp hstep
    exact (and_iff_left fun _ h ↦ Event.noConfusion h).symm

end Sound

/-! ### Runs -/

theorem sound_of_run {site : Site} {gLoopNum : ℤ} {events : List Event} {final : System}
    (hrun : run (systemStep site gLoopNum) (System.start site) events = some final) :
    Sound final :=
  run_invariant (fun _ _ _ hsound hstep ↦ sound_step hsound hstep) (sound_start site) hrun

theorem samples_of_run {site : Site} {gLoopNum : ℤ} {events : List Event} {system final : System}
    (hrun : run (systemStep site gLoopNum) system events = some final) (index : ℕ) :
    (final.clients index).samples = [] ↔
      (system.clients index).samples = [] ∧
        ∀ current, Event.client index (.handle current) ∉ events := by
  induction events generalizing system with
  | nil =>
    rw [run_nil, Option.some.injEq] at hrun
    subst hrun
    exact (and_iff_left fun _ ↦ List.not_mem_nil).symm
  | cons event rest ih =>
    obtain ⟨next, hstep, hrest⟩ := run_cons_eq_some.mp hrun
    rw [ih hrest, samples_step hstep index, and_assoc, ← forall_and]
    simp only [List.mem_cons, not_or, ne_comm]

/-- The samples of a client belong to its messages: the sample number `k` is the time from the start
of the message number `k` to the call of `HandleMessage`, the text of that call is what the server
has made of that message, and the sender was woken for such texts only. -/
def System.Paired (system : System) (index : ℕ) : Prop :=
  (∀ (k : ℕ) (sample : Sample), (system.clients index).samples[k]? = some sample →
    (∃ start, (system.clients index).starts[k]? = some start ∧
      sample.value = sample.time - start) ∧
    (system.echoes index)[k]? = some sample.text) ∧
  ∀ text ∈ (system.clients index).released, text ∈ system.echoes index

/-- The first sample of a client is that of a notice of joining. -/
theorem Sound.join_of_samples {system : System} (hsound : Sound system) {index : ℕ}
    {sample : Sample} {rest : List Sample}
    (hsamples : (system.clients index).samples = sample :: rest) :
    sample.text.call.notice = .join := by
  refine (hsound.clients index).first sample.text ?_
  rw [ChatClient.heard, hsamples]
  rfl

/-- In every run the samples of a client belong to its messages exactly as long as `HandleMessage`
of the client has not been called. -/
theorem paired_iff {site : Site} {gLoopNum : ℤ} {events : List Event} {final : System}
    (hrun : run (systemStep site gLoopNum) (System.start site) events = some final) (index : ℕ) :
    final.Paired index ↔ ∀ current, Event.client index (.handle current) ∉ events := by
  have hsound := sound_of_run hrun
  have hsamples := (samples_of_run hrun index).trans (and_iff_right rfl)
  rw [← hsamples]
  constructor
  · rintro ⟨hpairs, -⟩
    rcases hfirst : (final.clients index).samples with _ | ⟨sample, rest⟩
    · rfl
    · have hecho := (hpairs 0 sample (by rw [hfirst]; rfl)).2
      have hmessage := hsound.echoes index _ (List.mem_of_getElem? hecho)
      rw [Text.isMessage, hsound.join_of_samples hfirst] at hmessage
      cases hmessage
  · intro hnone
    constructor
    · intro k sample hsample
      rw [hnone] at hsample
      cases hsample
    · intro text htext
      have htaken := (hsound.clients index).notified text (List.mem_append_left _ htext)
      rw [hnone] at htaken
      cases htaken

/-! ### A run -/

/-- The datagram of a message. -/
def push (conv : UInt8) (data : List UInt8) : List UInt8 :=
  [conv, 0, 0, 0, 81, 0, 32, 0, 0, 0, 0, 0, 0, 0, 0, 0, 0, 0, 0, 0, UInt8.ofNat data.length,
    UInt8.ofNat (data.length / 256), 0, 0] ++ data

/-- The notice of joining of the first client. -/
def joinText : Text := ⟨⟨.join, 0, sampleSite.addr 0, {0}⟩, 0⟩

/-- The echo of the first message. -/
def echoText : Text := ⟨⟨.message message, 0, sampleSite.addr 0, {0}⟩, 1⟩

/-- The first client sends its first message, which the server receives. -/
def firstMessage : List Event :=
  [.client 0 (.send 100), .client 0 (.send 100), .client 0 (.send 100), .client 0 (.send 100),
    .receive 0 (push 1 message) 1 fun _ ↦ 110]

/-- The notice of joining and the echo arrive in one datagram; the client handles the notice and
sends its second message before it handles the echo. -/
def twoSamples : List Event :=
  [.client 0 (.run 130 (some (0, push 1 joinText.call.text ++ push 1 echoText.call.text, 2))),
    .client 0 .recv, .client 0 (.handle 130), .client 0 .finish, .client 0 .finish,
    .client 0 .finish, .client 0 (.send 130), .client 0 (.send 130), .client 0 (.send 130),
    .client 0 (.send 131), .client 0 (.send 131), .client 0 (.send 131), .client 0 .recv,
    .client 0 (.handle 131)]

theorem paired_iff_firstMessage :
    ∃ middle final, run (systemStep sampleSite 20) (System.start sampleSite) firstMessage =
        some middle ∧ middle.Paired 0 ∧
      run (systemStep sampleSite 20) (System.start sampleSite) (firstMessage ++ twoSamples) =
        some final ∧ ¬ final.Paired 0 := by
  have hfirst : (run (systemStep sampleSite 20) (System.start sampleSite) firstMessage).map
      (fun _ ↦ true) = some true := by decide +kernel
  have hboth : (run (systemStep sampleSite 20) (System.start sampleSite)
      (firstMessage ++ twoSamples)).map (fun _ ↦ true) = some true := by decide +kernel
  obtain ⟨middle, hmiddle, -⟩ := exists_of_view hfirst
  obtain ⟨final, hfinal, -⟩ := exists_of_view hboth
  refine ⟨middle, final, hmiddle, (paired_iff hmiddle 0).mpr ?_, hfinal, fun hpaired ↦ ?_⟩
  · intro current
    simp [firstMessage]
  · exact (paired_iff hfinal 0).mp hpaired 130 (by simp [firstMessage, twoSamples])

/-- The failure: the notice of joining is the first sample and releases the second message, and the
echo of the first message gives a sample of 0 ms, from the start of the second message. -/
theorem join_is_sampled :
    ∃ final, run (systemStep sampleSite 20) (System.start sampleSite) (firstMessage ++ twoSamples) =
        some final ∧
      (final.clients 0).starts = [100, 131] ∧
      (final.clients 0).samples = [⟨30, 130, joinText⟩, ⟨0, 131, echoText⟩] ∧
      (final.clients 0).released = [joinText] ∧ final.echoes 0 = [echoText] ∧
      ¬ final.Paired 0 := by
  have hview : (run (systemStep sampleSite 20) (System.start sampleSite)
      (firstMessage ++ twoSamples)).map (fun final ↦ decide
        ((final.clients 0).starts = [100, 131] ∧
          (final.clients 0).samples = [⟨30, 130, joinText⟩, ⟨0, 131, echoText⟩] ∧
          (final.clients 0).released = [joinText] ∧ final.echoes 0 = [echoText])) = some true := by
    decide +kernel
  obtain ⟨final, hrun, hseen⟩ := exists_of_view hview
  obtain ⟨hstarts, hsamples, hreleased, hechoes⟩ := of_decide_eq_true hseen
  refine ⟨final, hrun, hstarts, hsamples, hreleased, hechoes, ?_⟩
  rintro ⟨hpairs, -⟩
  have hecho := (hpairs 0 ⟨30, 130, joinText⟩ (by rw [hsamples]; rfl)).2
  rw [hechoes] at hecho
  exact absurd hecho (by decide +kernel)

end TestLinux.UdpRtt
