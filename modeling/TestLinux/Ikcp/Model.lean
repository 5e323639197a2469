import TestLinux.Ikcp.Segment

/-!
# Control blocks of `ikcp.c`

`Ikcpcb` is `IKCPCB`, with its queues as lists and the pairs of `acklist` as a list. The functions
are those of `ikcp.c`: a function that changes the control block returns the changed one, and
`flush` and `update` return the datagrams that are passed to the output callback as well. Memory is
always there, and nothing is logged. The members that no function reads (`ts_recent`, `ts_lastack`
and the pointers) are left out. Signed arithmetic wraps around.
-/

set_option autoImplicit false
set_option relaxedAutoImplicit false

namespace TestLinux.Ikcp

open TestLinux.Serial

/-! ### Constants -/

/-- `IKCP_RTO_NDL`. -/
def rtoNdl : Int32 := 30

/-- `IKCP_RTO_MIN`. -/
def rtoMin : Int32 := 100

/-- `IKCP_RTO_DEF`. -/
def rtoDef : Int32 := 200

/-- `IKCP_RTO_MAX`. -/
def rtoMax : UInt32 := 60000

/-- `IKCP_CMD_PUSH`. -/
def cmdPush : UInt8 := 81

/-- `IKCP_CMD_ACK`. -/
def cmdAck : UInt8 := 82

/-- `IKCP_CMD_WASK`. -/
def cmdWask : UInt8 := 83

/-- `IKCP_CMD_WINS`. -/
def cmdWins : UInt8 := 84

/-- `IKCP_ASK_SEND`. -/
def askSend : UInt32 := 1

/-- `IKCP_ASK_TELL`. -/
def askTell : UInt32 := 2

/-- `IKCP_WND_SND`. -/
def wndSnd : UInt32 := 32

/-- `IKCP_WND_RCV`. -/
def wndRcv : UInt32 := 128

/-- `IKCP_MTU_DEF`. -/
def mtuDef : UInt32 := 1400

/-- `IKCP_INTERVAL`. -/
def intervalDef : UInt32 := 100

/-- `IKCP_OVERHEAD`. -/
def overhead : ℕ := 24

/-- `IKCP_DEADLINK`. -/
def deadlinkDef : UInt32 := 20

/-- `IKCP_THRESH_INIT`. -/
def threshInit : UInt32 := 2

/-- `IKCP_THRESH_MIN`. -/
def threshMin : UInt32 := 2

/-- `IKCP_PROBE_INIT`. -/
def probeInit : UInt32 := 7000

/-- `IKCP_PROBE_LIMIT`. -/
def probeLimit : UInt32 := 120000

/-- `IKCP_FASTACK_LIMIT`. -/
def fastackLimit : Int32 := 5

/-- `_imin_`. -/
def imin (a b : UInt32) : UInt32 := if a ≤ b then a else b

/-- `_imax_`. -/
def imax (a b : UInt32) : UInt32 := if b ≤ a then a else b

/-- `_ibound_`. -/
def ibound (lower middle upper : UInt32) : UInt32 := imin (imax lower middle) upper

/-! ### Control blocks -/

/-- `IKCPCB`. -/
structure Ikcpcb where
  conv : UInt32
  mtu : UInt32
  mss : UInt32
  state : UInt32
  sndUna : UInt32
  sndNxt : UInt32
  rcvNxt : UInt32
  ssthresh : UInt32
  rxRttval : Int32
  rxSrtt : Int32
  rxRto : Int32
  rxMinrto : Int32
  sndWnd : UInt32
  rcvWnd : UInt32
  rmtWnd : UInt32
  cwnd : UInt32
  probe : UInt32
  current : UInt32
  interval : UInt32
  tsFlush : UInt32
  xmit : UInt32
  nrcvBuf : UInt32
  nsndBuf : UInt32
  nrcvQue : UInt32
  nsndQue : UInt32
  nodelay : UInt32
  updated : UInt32
  tsProbe : UInt32
  probeWait : UInt32
  deadLink : UInt32
  incr : UInt32
  sndQueue : List Ikcpseg
  rcvQueue : List Ikcpseg
  sndBuf : List Ikcpseg
  rcvBuf : List Ikcpseg
  acklist : List (UInt32 × UInt32)
  fastresend : Int32
  fastlimit : Int32
  nocwnd : Int32
  stream : Int32

/-- `ikcp_create`. -/
def create (conv : UInt32) : Ikcpcb where
  conv := conv
  mtu := mtuDef
  mss := mtuDef - 24
  state := 0
  sndUna := 0
  sndNxt := 0
  rcvNxt := 0
  ssthresh := threshInit
  rxRttval := 0
  rxSrtt := 0
  rxRto := rtoDef
  rxMinrto := rtoMin
  sndWnd := wndSnd
  rcvWnd := wndRcv
  rmtWnd := wndRcv
  cwnd := 0
  probe := 0
  current := 0
  interval := intervalDef
  tsFlush := intervalDef
  xmit := 0
  nrcvBuf := 0
  nsndBuf := 0
  nrcvQue := 0
  nsndQue := 0
  nodelay := 0
  updated := 0
  tsProbe := 0
  probeWait := 0
  deadLink := deadlinkDef
  incr := 0
  sndQueue := []
  rcvQueue := []
  sndBuf := []
  rcvBuf := []
  acklist := []
  fastresend := 0
  fastlimit := fastackLimit
  nocwnd := 0
  stream := 0

/-! ### Receiving -/

/-- The loops of `ikcp_recv` and `ikcp_parse_data` that move available data from `rcv_buf` to
`rcv_queue`, with the rest of `rcv_buf`. -/
def moveLoop (kcp : Ikcpcb) : List Ikcpseg → Ikcpcb
  | [] => { kcp with rcvBuf := [] }
  | seg :: rest =>
    if seg.sn = kcp.rcvNxt ∧ kcp.nrcvQue < kcp.rcvWnd then
      moveLoop { kcp with
        nrcvBuf := kcp.nrcvBuf - 1
        rcvQueue := kcp.rcvQueue ++ [seg]
        nrcvQue := kcp.nrcvQue + 1
        rcvNxt := kcp.rcvNxt + 1 } rest
    else { kcp with rcvBuf := seg :: rest }

/-- Moves available data. -/
def moveAvailable (kcp : Ikcpcb) : Ikcpcb := moveLoop kcp kcp.rcvBuf

/-- The loop of `ikcp_recv` that merges fragments: those up to the first with number 0, and the
others. -/
def mergeLoop : List Ikcpseg → List Ikcpseg × List Ikcpseg
  | [] => ([], [])
  | seg :: rest =>
    if seg.frg = 0 then ([seg], rest)
    else (seg :: (mergeLoop rest).1, (mergeLoop rest).2)

/-- The bytes of segments. -/
def dataOf (segs : List Ikcpseg) : List UInt8 := segs.flatMap Ikcpseg.data

/-- `ikcp_peeksize`. -/
def peeksize (kcp : Ikcpcb) : ℤ :=
  match kcp.rcvQueue with
  | [] => -1
  | seg :: _ =>
    if seg.frg = 0 then seg.data.length
    else if kcp.nrcvQue < seg.frg + 1 then -1
    else (dataOf (mergeLoop kcp.rcvQueue).1).length

/-- The control block after the fragments of a message are merged. -/
def takeFragments (kcp : Ikcpcb) (len : ℤ) : Ikcpcb :=
  if len < 0 then kcp
  else { kcp with
    rcvQueue := (mergeLoop kcp.rcvQueue).2
    nrcvQue := kcp.nrcvQue - UInt32.ofNat (mergeLoop kcp.rcvQueue).1.length }

/-- `ikcp_recv` into a buffer of `len` bytes: what it returns, and the bytes that it copies into the
buffer. A negative `len` only looks. -/
def recv (kcp : Ikcpcb) (len : ℤ) : ℤ × List UInt8 × Ikcpcb :=
  if kcp.rcvQueue = [] then (-1, [], kcp)
  else if peeksize kcp < 0 then (-2, [], kcp)
  else if len.natAbs < peeksize kcp then (-3, [], kcp)
  else
    let recover := decide (kcp.rcvWnd ≤ kcp.nrcvQue)
    let merged := (mergeLoop kcp.rcvQueue).1
    let kcp := moveAvailable (takeFragments kcp len)
    let kcp :=
      if kcp.nrcvQue < kcp.rcvWnd ∧ recover then { kcp with probe := kcp.probe ||| askTell }
      else kcp
    ((dataOf merged).length, dataOf merged, kcp)

/-! ### Sending -/

/-- A segment of `ikcp_send`. The other members are written by `ikcp_flush`. -/
def newSegment (frg : UInt32) (data : List UInt8) : Ikcpseg where
  conv := 0
  cmd := 0
  frg := frg
  wnd := 0
  ts := 0
  sn := 0
  una := 0
  resendts := 0
  rto := 0
  fastack := 0
  xmit := 0
  data := data

/-- The loop of `ikcp_send` that cuts the buffer into fragments, with the number of fragments that
are left to make. -/
def fragmentLoop (mss : ℕ) (stream : Int32) : ℕ → List UInt8 → List Ikcpseg
  | 0, _ => []
  | left + 1, buffer =>
    newSegment (if stream = 0 then UInt32.ofNat left else 0) (buffer.take mss) ::
      fragmentLoop mss stream left (buffer.drop mss)

/-- In streaming mode, how many bytes of the buffer go into the last segment of `snd_queue`. -/
def extend (mss : ℕ) (queue : List Ikcpseg) (buffer : List UInt8) : ℕ :=
  match queue.getLast? with
  | none => 0
  | some old => min buffer.length (mss - old.data.length)

/-- In streaming mode, `snd_queue` with its last segment filled up. -/
def appendLast (mss : ℕ) (queue : List Ikcpseg) (buffer : List UInt8) : List Ikcpseg :=
  match queue.getLast? with
  | none => queue
  | some old =>
    if old.data.length < mss then
      queue.dropLast ++ [newSegment 0 (old.data ++ buffer.take (extend mss queue buffer))]
    else queue

/-- The number of fragments for a buffer. -/
def fragmentCount (mss len : ℕ) : ℕ := if len ≤ mss then 1 else (len + mss - 1) / mss

/-- The part of `ikcp_send` that makes new segments. -/
def sendRest (kcp : Ikcpcb) (buffer : List UInt8) : ℤ × Ikcpcb :=
  let count := fragmentCount kcp.mss.toNat buffer.length
  if wndRcv.toNat ≤ count then (-2, kcp)
  else
    let count := if count = 0 then 1 else count
    (0, { kcp with
      sndQueue := kcp.sndQueue ++ fragmentLoop kcp.mss.toNat kcp.stream count buffer
      nsndQue := kcp.nsndQue + UInt32.ofNat count })

/-- `ikcp_send`. A length from 2147483648 on is negative as an `int`. -/
def send (kcp : Ikcpcb) (buffer : List UInt8) : ℤ × Ikcpcb :=
  if 2147483648 ≤ buffer.length then (-1, kcp)
  else if kcp.stream ≠ 0 then
    let kcp' := { kcp with sndQueue := appendLast kcp.mss.toNat kcp.sndQueue buffer }
    let buffer' := buffer.drop (extend kcp.mss.toNat kcp.sndQueue buffer)
    if buffer'.length = 0 then (0, kcp') else sendRest kcp' buffer'
  else sendRest kcp buffer

/-! ### Acknowledgements -/

/-- The new `rx_srtt` and `rx_rttval` of `ikcp_update_ack`. A difference is a `long`. -/
def smooth (srtt rttval rtt : Int32) : Int32 × Int32 :=
  if srtt = 0 then (rtt, rtt / 2)
  else
    let delta := ((rtt - srtt).toInt.natAbs : ℤ)
    let rttval := Int32.ofInt (((3 * rttval).toInt + delta).tdiv 4)
    let srtt := (7 * srtt + rtt) / 8
    (if srtt < 1 then 1 else srtt, rttval)

/-- `ikcp_update_ack`. -/
def updateAck (kcp : Ikcpcb) (rtt : Int32) : Ikcpcb :=
  let smoothed := smooth kcp.rxSrtt kcp.rxRttval rtt
  let rto := smoothed.1.toUInt32 + imax kcp.interval (4 * smoothed.2).toUInt32
  { kcp with
    rxSrtt := smoothed.1
    rxRttval := smoothed.2
    rxRto := (ibound kcp.rxMinrto.toUInt32 rto rtoMax).toInt32 }

/-- `ikcp_shrink_buf`. -/
def shrinkBuf (kcp : Ikcpcb) : Ikcpcb :=
  match kcp.sndBuf with
  | seg :: _ => { kcp with sndUna := seg.sn }
  | [] => { kcp with sndUna := kcp.sndNxt }

/-- The loop of `ikcp_parse_ack`: what is left of `snd_buf`, and how many segments are deleted. -/
def ackLoop (sn : UInt32) : List Ikcpseg → List Ikcpseg × UInt32
  | [] => ([], 0)
  | seg :: rest =>
    if sn = seg.sn then (rest, 1)
    else if diff sn seg.sn < 0 then (seg :: rest, 0)
    else (seg :: (ackLoop sn rest).1, (ackLoop sn rest).2)

/-- `ikcp_parse_ack`. -/
def parseAck (kcp : Ikcpcb) (sn : UInt32) : Ikcpcb :=
  if diff sn kcp.sndUna < 0 ∨ 0 ≤ diff sn kcp.sndNxt then kcp
  else { kcp with
    sndBuf := (ackLoop sn kcp.sndBuf).1
    nsndBuf := kcp.nsndBuf - (ackLoop sn kcp.sndBuf).2 }

/-- The loop of `ikcp_parse_una`. -/
def unaLoop (una : UInt32) : List Ikcpseg → List Ikcpseg × UInt32
  | [] => ([], 0)
  | seg :: rest =>
    if 0 < diff una seg.sn then ((unaLoop una rest).1, (unaLoop una rest).2 + 1)
    else (seg :: rest, 0)

/-- `ikcp_parse_una`. -/
def parseUna (kcp : Ikcpcb) (una : UInt32) : Ikcpcb :=
  { kcp with
    sndBuf := (unaLoop una kcp.sndBuf).1
    nsndBuf := kcp.nsndBuf - (unaLoop una kcp.sndBuf).2 }

/-- The loop of `ikcp_parse_fastack`. -/
def fastackLoop (sn : UInt32) : List Ikcpseg → List Ikcpseg
  | [] => []
  | seg :: rest =>
    if diff sn seg.sn < 0 then seg :: rest
    else if sn ≠ seg.sn then { seg with fastack := seg.fastack + 1 } :: fastackLoop sn rest
    else seg :: fastackLoop sn rest

/-- `ikcp_parse_fastack`. The time is only used with `IKCP_FASTACK_CONSERVE`, which is not
defined. -/
def parseFastack (kcp : Ikcpcb) (sn : UInt32) : Ikcpcb :=
  if diff sn kcp.sndUna < 0 ∨ 0 ≤ diff sn kcp.sndNxt then kcp
  else { kcp with sndBuf := fastackLoop sn kcp.sndBuf }

/-- `ikcp_ack_push`. -/
def ackPush (kcp : Ikcpcb) (sn ts : UInt32) : Ikcpcb :=
  { kcp with acklist := kcp.acklist ++ [(sn, ts)] }

/-! ### Data -/

/-- The search of `ikcp_parse_data` for the place of a new segment, from the end of `rcv_buf` on:
the list is reversed. A repeated segment has no place. -/
def insertLoop (newseg : Ikcpseg) : List Ikcpseg → Option (List Ikcpseg)
  | [] => some [newseg]
  | seg :: before =>
    if seg.sn = newseg.sn then none
    else if 0 < diff newseg.sn seg.sn then some (newseg :: seg :: before)
    else (insertLoop newseg before).map (seg :: ·)

/-- Puts a new segment into `rcv_buf`, unless it is repeated. -/
def insertBuf (kcp : Ikcpcb) (newseg : Ikcpseg) : Ikcpcb :=
  match insertLoop newseg kcp.rcvBuf.reverse with
  | none => kcp
  | some segs => { kcp with rcvBuf := segs.reverse, nrcvBuf := kcp.nrcvBuf + 1 }

/-- `ikcp_parse_data`. -/
def parseData (kcp : Ikcpcb) (newseg : Ikcpseg) : Ikcpcb :=
  if 0 ≤ diff newseg.sn (kcp.rcvNxt + kcp.rcvWnd) ∨ diff newseg.sn kcp.rcvNxt < 0 then kcp
  else moveAvailable (insertBuf kcp newseg)

/-! ### `ikcp_input` -/

/-- A control block in the loop of `ikcp_input`, with `flag` and `maxack`. -/
structure Inputting where
  kcp : Ikcpcb
  flag : Bool
  maxack : UInt32

/-- The segment that `ikcp_input` makes of a header and the data. -/
def Header.segment (header : Header) (data : List UInt8) : Ikcpseg where
  conv := header.conv
  cmd := header.cmd.toUInt32
  frg := header.frg.toUInt32
  wnd := header.wnd.toUInt32
  ts := header.ts
  sn := header.sn
  una := header.una
  resendts := 0
  rto := 0
  fastack := 0
  xmit := 0
  data := data

/-- What every segment does to the control block. -/
def inputCommon (kcp : Ikcpcb) (header : Header) : Ikcpcb :=
  shrinkBuf (parseUna { kcp with rmtWnd := header.wnd.toUInt32 } header.una)

/-- `IKCP_CMD_ACK`. -/
def inputAck (inputting : Inputting) (header : Header) : Inputting :=
  let kcp := inputting.kcp
  let kcp :=
    if 0 ≤ diff kcp.current header.ts then
      updateAck kcp (Int32.ofInt (diff kcp.current header.ts))
    else kcp
  { kcp := shrinkBuf (parseAck kcp header.sn)
    flag := true
    maxack :=
      if inputting.flag = false then header.sn
      else if 0 < diff header.sn inputting.maxack then header.sn
      else inputting.maxack }

/-- `IKCP_CMD_PUSH`. -/
def inputPush (kcp : Ikcpcb) (header : Header) (data : List UInt8) : Ikcpcb :=
  if diff header.sn (kcp.rcvNxt + kcp.rcvWnd) < 0 then
    let kcp := ackPush kcp header.sn header.ts
    if 0 ≤ diff header.sn kcp.rcvNxt then parseData kcp (header.segment data) else kcp
  else kcp

/-- The body of the loop of `ikcp_input`, after the checks. -/
def inputSegment (inputting : Inputting) (header : Header) (data : List UInt8) : Inputting :=
  let inputting := { inputting with kcp := inputCommon inputting.kcp header }
  if header.cmd = cmdAck then inputAck inputting header
  else if header.cmd = cmdPush then
    { inputting with kcp := inputPush inputting.kcp header data }
  else if header.cmd = cmdWask then
    { inputting with kcp := { inputting.kcp with probe := inputting.kcp.probe ||| askTell } }
  else inputting

/-- The loop of `ikcp_input`, with the code that it returns or 0 at the end of the data. -/
def inputLoop (inputting : Inputting) (data : List UInt8) : ℤ × Inputting :=
  if data.length < overhead then (0, inputting)
  else
    let header := (decodeHeader data).1
    let data' := data.drop overhead
    if header.conv ≠ inputting.kcp.conv then (-1, inputting)
    else if data'.length < header.len.toNat ∨ 2147483648 ≤ header.len.toNat then (-2, inputting)
    else if header.cmd ∉ [cmdPush, cmdAck, cmdWask, cmdWins] then (-3, inputting)
    else
      inputLoop (inputSegment inputting header (data'.take header.len.toNat))
        (data'.drop header.len.toNat)
termination_by data.length
decreasing_by
  simp only [overhead, List.length_drop] at *
  omega

/-- The end of `ikcp_input`: the congestion window grows if `snd_una` has. -/
def growWindow (kcp : Ikcpcb) (prevUna : UInt32) : Ikcpcb :=
  if 0 < diff kcp.sndUna prevUna ∧ kcp.cwnd < kcp.rmtWnd then
    let mss := kcp.mss
    let kcp : Ikcpcb :=
      if kcp.cwnd < kcp.ssthresh then
        { kcp with cwnd := kcp.cwnd + 1, incr := kcp.incr + mss }
      else
        let incr := if kcp.incr < mss then mss else kcp.incr
        let incr := incr + ((mss * mss) / incr + mss / 16)
        { kcp with
          incr := incr
          cwnd :=
            if (kcp.cwnd + 1) * mss ≤ incr then
              (incr + mss - 1) / (if 0 < mss then mss else 1)
            else kcp.cwnd }
    if kcp.rmtWnd < kcp.cwnd then { kcp with cwnd := kcp.rmtWnd, incr := kcp.rmtWnd * mss } else kcp
  else kcp

/-- `ikcp_input`. -/
def input (kcp : Ikcpcb) (data : List UInt8) : ℤ × Ikcpcb :=
  if data.length < overhead then (-1, kcp)
  else
    let result := inputLoop ⟨kcp, false, 0⟩ data
    let inputting := result.2
    if result.1 ≠ 0 then (result.1, inputting.kcp)
    else
      let kcp' :=
        if inputting.flag then parseFastack inputting.kcp inputting.maxack else inputting.kcp
      (0, growWindow kcp' kcp.sndUna)

/-! ### `ikcp_flush` -/

/-- What stands between `buffer` and `ptr`, and the datagrams that have been passed to the output
callback. The buffer has `capacity` bytes; writing behind its end is not modelled, so a run is cut
off in front of the call of `ikcp_setmtu` that would make it too small (`Node.step`). -/
structure Output where
  buffer : List UInt8
  sent : List (List UInt8)

/-- `ikcp_output`, which passes on nothing that is empty, and `ptr` set back to `buffer`. -/
def Output.output (out : Output) : Output where
  buffer := []
  sent := if out.buffer = [] then out.sent else out.sent ++ [out.buffer]

/-- Passes on the buffer unless `need` more bytes fit into the `mtu`. -/
def Output.reserve (out : Output) (mtu : UInt32) (need : ℕ) : Output :=
  if mtu.toNat < out.buffer.length + need then out.output else out

/-- Writes bytes at `ptr`. -/
def Output.write (out : Output) (bytes : List UInt8) : Output :=
  { out with buffer := out.buffer ++ bytes }

/-- `ikcp_wnd_unused`. -/
def wndUnused (kcp : Ikcpcb) : UInt32 :=
  if kcp.nrcvQue < kcp.rcvWnd then kcp.rcvWnd - kcp.nrcvQue else 0

/-- The variable `seg` of `ikcp_flush`, as it is set at the beginning. -/
def flushSeg (kcp : Ikcpcb) : Ikcpseg where
  conv := kcp.conv
  cmd := cmdAck.toUInt32
  frg := 0
  wnd := wndUnused kcp
  ts := 0
  sn := 0
  una := kcp.rcvNxt
  resendts := 0
  rto := 0
  fastack := 0
  xmit := 0
  data := []

/-- The loop over the acknowledgements. `seg` keeps the number and the time of the last one. -/
def flushAcks (mtu : UInt32) : List (UInt32 × UInt32) → Ikcpseg → Output → Ikcpseg × Output
  | [], seg, out => (seg, out)
  | (sn, ts) :: rest, seg, out =>
    let seg := { seg with sn := sn, ts := ts }
    flushAcks mtu rest seg ((out.reserve mtu overhead).write (encodeSeg seg))

/-- The probing of the window of the other side. -/
def probeWindow (kcp : Ikcpcb) : Ikcpcb :=
  if kcp.rmtWnd = 0 then
    if kcp.probeWait = 0 then
      { kcp with probeWait := probeInit, tsProbe := kcp.current + probeInit }
    else if 0 ≤ diff kcp.current kcp.tsProbe then
      let wait := if kcp.probeWait < probeInit then probeInit else kcp.probeWait
      let wait := wait + wait / 2
      let wait := if probeLimit < wait then probeLimit else wait
      { kcp with
        probeWait := wait
        tsProbe := kcp.current + wait
        probe := kcp.probe ||| askSend }
    else kcp
  else { kcp with tsProbe := 0, probeWait := 0 }

/-- One of the two window commands, if it is asked for. -/
def flushProbe (kcp : Ikcpcb) (ask : UInt32) (seg : Ikcpseg) (out : Output) : Output :=
  if kcp.probe &&& ask ≠ 0 then (out.reserve kcp.mtu overhead).write (encodeSeg seg) else out

/-- The window for new segments. -/
def flushWindow (kcp : Ikcpcb) : UInt32 :=
  let cwnd := imin kcp.sndWnd kcp.rmtWnd
  if kcp.nocwnd = 0 then imin kcp.cwnd cwnd else cwnd

/-- A segment that is moved to `snd_buf`. -/
def Ikcpseg.number (seg : Ikcpseg) (kcp : Ikcpcb) (wnd : UInt32) : Ikcpseg :=
  { seg with
    conv := kcp.conv
    cmd := cmdPush.toUInt32
    wnd := wnd
    ts := kcp.current
    sn := kcp.sndNxt
    una := kcp.rcvNxt
    resendts := kcp.current
    rto := kcp.rxRto.toUInt32
    fastack := 0
    xmit := 0 }

/-- The loop that moves data from `snd_queue` to `snd_buf`, with the rest of `snd_queue`. -/
def numberLoop (cwnd wnd : UInt32) (kcp : Ikcpcb) : List Ikcpseg → Ikcpcb
  | [] => { kcp with sndQueue := [] }
  | seg :: rest =>
    if diff kcp.sndNxt (kcp.sndUna + cwnd) < 0 then
      numberLoop cwnd wnd { kcp with
        sndBuf := kcp.sndBuf ++ [seg.number kcp wnd]
        nsndQue := kcp.nsndQue - 1
        nsndBuf := kcp.nsndBuf + 1
        sndNxt := kcp.sndNxt + 1 } rest
    else { kcp with sndQueue := seg :: rest }

/-- The reasons to transmit a segment of `snd_buf`. -/
inductive Reason where
  | first
  | timeout
  | fastack
  deriving DecidableEq

/-- `resent`. -/
def resent (kcp : Ikcpcb) : UInt32 :=
  if 0 < kcp.fastresend then kcp.fastresend.toUInt32 else 0xffffffff

/-- Whether a segment needs to be sent. -/
def needsend (kcp : Ikcpcb) (segment : Ikcpseg) : Option Reason :=
  if segment.xmit = 0 then some .first
  else if 0 ≤ diff kcp.current segment.resendts then some .timeout
  else if resent kcp ≤ segment.fastack ∧
      (segment.xmit.toInt32 ≤ kcp.fastlimit ∨ kcp.fastlimit ≤ 0) then some .fastack
  else none

/-- The new time-out of a segment that is sent again because of a time-out. -/
def backoff (kcp : Ikcpcb) (rto : UInt32) : UInt32 :=
  if kcp.nodelay = 0 then rto + imax rto kcp.rxRto.toUInt32
  else
    let step := if kcp.nodelay < 2 then rto.toInt32 else kcp.rxRto
    rto + (step / 2).toUInt32

/-- A segment that needs to be sent, with its members as they are then. -/
def Ikcpseg.resend (segment : Ikcpseg) (kcp : Ikcpcb) (wnd : UInt32) (reason : Reason) :
    Ikcpseg :=
  let segment := { segment with
    xmit := segment.xmit + 1
    ts := kcp.current
    wnd := wnd
    una := kcp.rcvNxt }
  match reason with
  | .first =>
    let rtomin := if kcp.nodelay = 0 then (kcp.rxRto >>> 3).toUInt32 else 0
    { segment with
      rto := kcp.rxRto.toUInt32
      resendts := kcp.current + kcp.rxRto.toUInt32 + rtomin }
  | .timeout =>
    { segment with
      rto := backoff kcp segment.rto
      resendts := kcp.current + backoff kcp segment.rto }
  | .fastack => { segment with fastack := 0, resendts := kcp.current + segment.rto }

/-- The variables of the loop over `snd_buf`, with the segments that have been visited. -/
structure Flushing where
  visited : List Ikcpseg
  out : Output
  xmit : UInt32
  state : UInt32
  change : Bool
  lost : Bool

/-- The body of the loop over `snd_buf`. -/
def flushSegment (kcp : Ikcpcb) (wnd : UInt32) (flushing : Flushing) (segment : Ikcpseg) :
    Flushing :=
  match needsend kcp segment with
  | none => { flushing with visited := flushing.visited ++ [segment] }
  | some reason =>
    let segment := segment.resend kcp wnd reason
    { visited := flushing.visited ++ [segment]
      out := (flushing.out.reserve kcp.mtu (overhead + segment.data.length)).write segment.bytes
      xmit := if reason = .timeout then flushing.xmit + 1 else flushing.xmit
      state := if kcp.deadLink ≤ segment.xmit then 0xffffffff else flushing.state
      change := flushing.change || decide (reason = .fastack)
      lost := flushing.lost || decide (reason = .timeout) }

/-- The loop over `snd_buf`. -/
def flushData (kcp : Ikcpcb) (wnd : UInt32) (out : Output) : Flushing :=
  kcp.sndBuf.foldl (flushSegment kcp wnd) ⟨[], out, kcp.xmit, kcp.state, false, false⟩

/-- The end of `ikcp_flush`: the congestion window after losses. -/
def shrinkWindow (kcp : Ikcpcb) (cwnd : UInt32) (change lost : Bool) : Ikcpcb :=
  let kcp : Ikcpcb :=
    if change then
      let ssthresh := imax ((kcp.sndNxt - kcp.sndUna) / 2) threshMin
      { kcp with
        ssthresh := ssthresh
        cwnd := ssthresh + resent kcp
        incr := (ssthresh + resent kcp) * kcp.mss }
    else kcp
  let kcp : Ikcpcb :=
    if lost then
      { kcp with ssthresh := imax (cwnd / 2) threshMin, cwnd := 1, incr := kcp.mss }
    else kcp
  if kcp.cwnd < 1 then { kcp with cwnd := 1, incr := kcp.mss } else kcp

/-- The part of `ikcp_flush` before the loop over `snd_buf`: the control block, what has been
written, and the window that is told to the other side. -/
def flushHead (kcp : Ikcpcb) : Ikcpcb × Output × UInt32 :=
  let acks := flushAcks kcp.mtu kcp.acklist (flushSeg kcp) ⟨[], []⟩
  let seg := acks.1
  let kcp := probeWindow { kcp with acklist := [] }
  let out := flushProbe kcp askSend { seg with cmd := cmdWask.toUInt32 } acks.2
  let out := flushProbe kcp askTell { seg with cmd := cmdWins.toUInt32 } out
  let kcp := { kcp with probe := 0 }
  (numberLoop (flushWindow kcp) seg.wnd kcp kcp.sndQueue, out, seg.wnd)

/-- `ikcp_flush`. -/
def flush (kcp : Ikcpcb) : List (List UInt8) × Ikcpcb :=
  if kcp.updated = 0 then ([], kcp)
  else
    let cwnd := flushWindow kcp
    let head := flushHead kcp
    let kcp := head.1
    let flushing := flushData kcp head.2.2 head.2.1
    let kcp := { kcp with
      sndBuf := flushing.visited
      xmit := flushing.xmit
      state := flushing.state }
    (flushing.out.output.sent, shrinkWindow kcp cwnd flushing.change flushing.lost)

/-! ### Time -/

/-- The beginning of `ikcp_update`. The first call sets the time of the next flush. -/
def noteTime (kcp : Ikcpcb) (current : UInt32) : Ikcpcb :=
  { kcp with
    current := current
    updated := if kcp.updated = 0 then 1 else kcp.updated
    tsFlush := if kcp.updated = 0 then current else kcp.tsFlush }

/-- `ikcp_update`. -/
def update (kcp : Ikcpcb) (current : UInt32) : List (List UInt8) × Ikcpcb :=
  let kcp := noteTime kcp current
  let slap := diff current kcp.tsFlush
  let late := 10000 ≤ slap ∨ slap < -10000
  let tsFlush := if late then current else kcp.tsFlush
  let slap := if late then 0 else slap
  if 0 ≤ slap then
    let next := tsFlush + kcp.interval
    flush { kcp with
      tsFlush := if 0 ≤ diff current next then current + kcp.interval else next }
  else ([], { kcp with tsFlush := tsFlush })

/-- The loop of `ikcp_check`: nothing if a segment is due, or the least time to one. -/
def checkLoop (current : UInt32) : List Ikcpseg → ℤ → Option ℤ
  | [], tmPacket => some tmPacket
  | seg :: rest, tmPacket =>
    if diff seg.resendts current ≤ 0 then none
    else checkLoop current rest (min (diff seg.resendts current) tmPacket)

/-- `ikcp_check`. -/
def check (kcp : Ikcpcb) (current : UInt32) : UInt32 :=
  if kcp.updated = 0 then current
  else
    let late := 10000 ≤ diff current kcp.tsFlush ∨ diff current kcp.tsFlush < -10000
    let tsFlush := if late then current else kcp.tsFlush
    if 0 ≤ diff current tsFlush then current
    else
      match checkLoop current kcp.sndBuf 0x7fffffff with
      | none => current
      | some tmPacket =>
        let minimal := UInt32.ofInt (min tmPacket (diff tsFlush current))
        current + (if kcp.interval ≤ minimal then kcp.interval else minimal)

/-! ### Parameters -/

/-- The size of `buffer`, which `ikcp_create` and `ikcp_setmtu` allocate. -/
def Ikcpcb.capacity (kcp : Ikcpcb) : UInt32 := (kcp.mtu + 24) * 3

/-- `ikcp_setmtu`. -/
def setmtu (kcp : Ikcpcb) (mtu : Int32) : ℤ × Ikcpcb :=
  if mtu < 50 ∨ mtu < 24 then (-1, kcp)
  else (0, { kcp with mtu := mtu.toUInt32, mss := mtu.toUInt32 - 24 })

/-- The bounds of the interval. -/
def clampInterval (interval : Int32) : UInt32 :=
  if 5000 < interval then 5000 else if interval < 10 then 10 else interval.toUInt32

/-- `ikcp_interval`. -/
def interval (kcp : Ikcpcb) (interval : Int32) : Ikcpcb :=
  { kcp with interval := clampInterval interval }

/-- `ikcp_nodelay`. -/
def nodelay (kcp : Ikcpcb) (nodelay interval resend nc : Int32) : Ikcpcb :=
  { kcp with
    nodelay := if 0 ≤ nodelay then nodelay.toUInt32 else kcp.nodelay
    rxMinrto :=
      if 0 ≤ nodelay then if nodelay ≠ 0 then rtoNdl else rtoMin else kcp.rxMinrto
    interval := if 0 ≤ interval then clampInterval interval else kcp.interval
    fastresend := if 0 ≤ resend then resend else kcp.fastresend
    nocwnd := if 0 ≤ nc then nc else kcp.nocwnd }

/-- `ikcp_wndsize`. -/
def wndsize (kcp : Ikcpcb) (sndwnd rcvwnd : Int32) : Ikcpcb :=
  { kcp with
    sndWnd := if 0 < sndwnd then sndwnd.toUInt32 else kcp.sndWnd
    rcvWnd := if 0 < rcvwnd then imax rcvwnd.toUInt32 wndRcv else kcp.rcvWnd }

end TestLinux.Ikcp
