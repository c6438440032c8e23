import RemoteCopy.Copy
import RemoteCopy.Settings

/-!
# The copy through the library

rcopy, the main process of the server and every child it forks have a library of their own, and
whatever they send goes through it. So there are the environments, the error rates and the seeds in
place of a network that may do anything; the network may still lose and damage what has got through.

All of this the programs notice as losses: what the libraries damage fails the checksum of whoever
receives it (`Sent.Becomes`). Every step is one of the copy, followed by losses
(`ErrorCopy.Shows`), so what holds of the copy holds here too (`ErrorCopy.written_of_reachable`).
-/

namespace RemoteCopy

/-! ## Programs and their libraries -/

/-- Datagrams that are sent one after the other, and what the library lets through. -/
def SendErr.pass (l : SendErr) : List Sent → Option (SendErr × List Sent)
  | [] => some (l, [])
  | x :: xs =>
      match l.pktMgr.sendtoErr x.datagram.bytes with
      | .ok (some ⟨_, wire, m⟩) =>
          ({ l with pktMgr := m }.pass xs).map fun (l, ys) =>
            (l, wire.toList.map (fun b => Sent.mk x.src ⟨x.datagram.dest, b⟩) ++ ys)
      | _ => none

/-- A copy, and what both programs give to their libraries. -/
structure ErrorCopy where
  copy : Copy
  rcopyEnv : Environment
  rcopyRate : CFloat
  serverEnv : Environment
  serverRate : CFloat

/-- The programs, and what is really on its way between them; rcopy's library, that of the main
process, and those of its children. -/
structure ErrorNet where
  net : SessionNet
  rcopy : SendErr
  main : SendErr
  children : List SendErr

/-- A step, and the times that a new child may look at. -/
structure ErrorEvent where
  event : OrderedEvent
  time : Int
  time' : Int

/-- `sendErr_init`, as all processes call it. -/
def initArgs (rate : CFloat) (time time' : Int) : InitArgs := ⟨rate, true, true, true, time, time'⟩

namespace ErrorCopy

variable (P : ErrorCopy)

/-- The library of a new child: `fork`, then `sendErr_init`. -/
def forked (main : SendErr) (time time' : Int) : SendErr :=
  (main.forkMod true).init (initArgs P.serverRate time time')

/-- A step of the copy, computed. What is new in a queue goes through the library of its sender. -/
def next (x : ErrorNet) (e : ErrorEvent) : Option ErrorNet :=
  match P.copy.next x.net e.event, e.event with
  | some net, .session (.serve _ _ _ _) =>
      ((P.forked x.main e.time e.time').pass (net.toRcopy.drop x.net.toRcopy.length)).map
        fun (child, sent) => { x with
          net := { net with toRcopy := x.net.toRcopy ++ sent }
          main := x.main.forkMod false
          children := x.children ++ [child] }
  | some net, .session (.child k _) =>
      match x.children[k]? with
      | some child =>
          (child.pass (net.toRcopy.drop x.net.toRcopy.length)).map fun (child, sent) => { x with
            net := { net with toRcopy := x.net.toRcopy ++ sent }
            children := x.children.set k child }
      | none => none
  | some net, .session (.filename _ _) | some net, .session (.transfer _) =>
      (x.rcopy.pass (net.toServer.drop x.net.toServer.length)).map fun (rcopy, sent) => { x with
        net := { net with toServer := x.net.toServer ++ sent }
        rcopy := rcopy }
  | some net, .session .fileOkay | some net, .loseToServer _ | some net, .loseToRcopy _ =>
      some { x with net := net }
  | none, _ => none

/-- Both programs have called `sendErr_init`, and rcopy has sent its first request. -/
structure Initial (x : ErrorNet) : Prop where
  main : (SendErr.calls P.serverEnv P.serverRate).init x.main
  children : x.children = []
  sent : ∃ net l sent, P.copy.session.Initial net ∧
    (SendErr.calls P.rcopyEnv P.rcopyRate).init l ∧
    l.pass net.toServer = some (x.rcopy, sent) ∧ x.net = { net with toServer := sent }

def system : System ErrorNet ErrorEvent where
  init := P.Initial
  step x e x' := P.next x e = some x'

end ErrorCopy

/-! ## What becomes of a datagram -/

/-- `y` is what the library has made of `x`, if it has not dropped it: `x`, or of the same length
and with a checksum that comes out on no machine. -/
structure Sent.Becomes (x y : Sent) : Prop where
  src : y.src = x.src
  dest : y.datagram.dest = x.datagram.dest
  bytes : y.datagram.bytes = x.datagram.bytes ∨
    (y.datagram.bytes.length = x.datagram.bytes.length ∧ ∀ o, inCksum o y.datagram.bytes ≠ 0)

theorem Sent.Becomes.isFor {x y : Sent} (h : x.Becomes y) (addr : Addr) :
    Sent.isFor addr y = Sent.isFor addr x := by
  rw [Sent.isFor, Sent.isFor, h.dest]

/-- A PDU whose payload has at most `n` bytes, and a number where one is expected. -/
def IsPdu (n : Nat) (b : Bytes) : Prop :=
  ∃ o s flag payload, b = encodePDU o s flag payload ∧ payload.length ≤ n ∧ Numerable flag payload

theorem IsPdu.mono {n m : Nat} {b : Bytes} (h : IsPdu n b) (hle : n ≤ m) : IsPdu m b := by
  obtain ⟨o, s, flag, payload, hb, hlen, hnumber⟩ := h
  exact ⟨o, s, flag, payload, hb, Nat.le_trans hlen hle, hnumber⟩

theorem IsPdu.length_le {n : Nat} {b : Bytes} (h : IsPdu n b) : b.length ≤ pduHeaderLen + n := by
  obtain ⟨o, s, flag, payload, rfl, hlen, -⟩ := h
  rw [length_encodePDU]
  exact Nat.add_le_add_left hlen _

theorem Reply.Encodes.isPdu {c : Reply} {b : Bytes} (h : c.Encodes b) :
    IsPdu rcopyResponsesPacketLength b := by
  cases c with
  | rr n =>
      obtain ⟨o, seq, rfl⟩ := h
      exact ⟨o, seq, _, _, rfl, by rw [ByteOrder.length_bytes32]; decide,
        fun _ => by rw [ByteOrder.length_bytes32]⟩
  | srej n =>
      obtain ⟨o, seq, rfl⟩ := h
      exact ⟨o, seq, _, _, rfl, by rw [ByteOrder.length_bytes32]; decide,
        fun _ => by rw [ByteOrder.length_bytes32]⟩
  | eofAck =>
      obtain ⟨o, seq, junk, rfl⟩ := h
      exact ⟨o, seq, _, _, rfl, by rw [List.length_singleton]; decide,
        fun hc => absurd hc (by decide)⟩

/-- So is what a child sends, if it is right. -/
theorem Transfer.Right.isPdu {P : Transfer} {n : Nat} {b : Bytes} (h : P.Right b)
    (hlen : b.length ≤ pduHeaderLen + n) : IsPdu n b := by
  obtain ⟨s, flag, payload, rfl, hright⟩ := h
  rw [length_encodePDU] at hlen
  refine ⟨_, s, flag, payload, rfl, Nat.le_of_add_le_add_left hlen, fun hnumber => ?_⟩
  rcases hright with ⟨hflag, -⟩ | ⟨rfl, -⟩
  · have hdata : ¬ IsDataFlag flag := by
      rcases hnumber with rfl | rfl <;> decide
    exact absurd hflag hdata
  · exact absurd hnumber (by decide)

section
variable {o : ByteOrder} {size : Nat} {stale datagram : Bytes}

/-- A wrong checksum is noticed, if the datagram fits the buffer. -/
theorem damaged_of_inCksum (hlen : datagram.length ≤ size) (hsum : inCksum o datagram ≠ 0) :
    Damaged o size stale datagram := by
  rw [Damaged, recvfrom_of_le stale hlen, List.take_left]
  exact hsum

theorem Damaged.rejected (h : Damaged o size stale datagram) : Rejected o size stale datagram := by
  rw [Rejected, processPDU]
  split
  · rfl
  · exact if_pos h

end

section
variable {addr : Addr} {corrupt : Bytes → Bytes → Prop} {p : Poll}

/-- The programs take what the library has made of `x` for `x`, damaged on its way. -/
theorem Sent.Becomes.receivedAs {x y : Sent} (h : x.Becomes y)
    (hcorrupt : ∀ stale datagram, datagram.length = x.datagram.bytes.length →
      (∀ o, inCksum o datagram ≠ 0) → corrupt stale datagram)
    (hy : y.ReceivedAs addr corrupt p) : x.ReceivedAs addr corrupt p := by
  cases p with
  | timeout => exact hy
  | received src stale datagram =>
      obtain ⟨hdest, hsrc, hbytes⟩ := hy
      refine ⟨h.dest.symm.trans hdest, hsrc.trans h.src, ?_⟩
      rcases hbytes with rfl | hbytes
      · exact h.bytes.imp_right fun hdamaged => hcorrupt _ _ hdamaged.1 hdamaged.2
      · exact .inr hbytes

/-- So a poll takes from either queue. -/
theorem takeAt_becomes [∀ stale datagram, Decidable (corrupt stale datagram)]
    {queue queue' rest' : List Sent} (h : List.Forall₂ Sent.Becomes queue queue')
    (hcorrupt : ∀ x ∈ queue, x.datagram.dest = addr → ∀ stale datagram,
      datagram.length = x.datagram.bytes.length → (∀ o, inCksum o datagram ≠ 0) →
        corrupt stale datagram)
    (htake : takeAt addr corrupt p queue' = some rest') :
    ∃ rest, takeAt addr corrupt p queue = some rest ∧ List.Forall₂ Sent.Becomes rest rest' := by
  rcases takeAt_cases htake with ⟨htimeout, rfl⟩ | ⟨y, hfind, hreceived, rfl⟩
  · exact ⟨queue, if_pos htimeout, h⟩
  · obtain ⟨x, hfind', hxy, hrest⟩ := h.of_find? (fun x y hxy => (hxy.isFor addr).symm) hfind
    have hfor : Sent.isFor addr x = true := List.find?_some hfind'
    have hx : x.ReceivedAs addr corrupt p := hxy.receivedAs
      (hcorrupt x (List.mem_of_find?_eq_some hfind') (beq_iff_eq.mp hfor)) hreceived
    refine ⟨_, ?_, hrest⟩
    rw [takeAt, hfind']
    cases p with
    | timeout => exact hreceived.elim
    | received src stale datagram => exact (if_neg (fun hc => by cases hc)).trans (if_pos hx)

end

/-! ## What is on its way in the copy -/

namespace Copy

section
variable {P : Copy} {net : SessionNet}

/-- Whatever is on its way to rcopy fits its buffer. -/
theorem Copying.toRcopy_pdu (h : P.Copying net) {x : Sent} (hx : x ∈ net.toRcopy) :
    IsPdu (P.args.size P.accepted) x.datagram.bytes := by
  have hsize := (P.args.size P.accepted).2.1
  have hsent := h.paired.toRcopy x hx
  obtain ⟨c, hc, heq⟩ := List.mem_map.mp hsent
  obtain ⟨k, hk⟩ := List.mem_iff_getElem?.mp hc
  obtain ⟨addr, client, server⟩ := c
  obtain ⟨hsrc, -⟩ := Prod.mk.inj heq
  cases server with
  | none => exact absurd hsrc.symm ((h.silent k addr client hk).1 x hx)
  | some s =>
      obtain ⟨tnet, hreach, hfollows⟩ := h.follows k addr client s hk
      obtain ⟨answers, hqueue, hanswers⟩ := hfollows.toRcopy
      have hmem : x ∈ net.toRcopy.filter (Sent.isFrom addr) :=
        List.mem_filter.mpr ⟨hx, beq_iff_eq.mpr hsrc.symm⟩
      rw [hqueue, List.mem_append] at hmem
      rcases hmem with hmem | hmem
      · rcases hanswers with rfl | ⟨rfl, -⟩
        · cases hmem
        · rw [List.mem_singleton.mp hmem]
          refine ⟨_, _, _, _, rfl, ?_, fun hc => absurd hc (by decide)⟩
          rw [List.length_singleton]
          omega
      · obtain ⟨d, hd, rfl⟩ := List.mem_map.mp hmem
        obtain ⟨L, K, m, a, hinOrder⟩ := Transfer.inOrder_of_reachable hreach
        obtain ⟨toRcopy, toServer, hjoint, hsub, -⟩ := hinOrder.joint
        obtain ⟨-, s, flag, payload, hbytes, hlen, -⟩ := hjoint.toRcopy d (hsub hd)
        refine (Transfer.right_of_reachable hreach d hd).isPdu ?_
        rw [hbytes, length_encodePDU]
        exact Nat.add_le_add_left hlen _

theorem isPdu_request (P : Copy) : IsPdu (Server.requestBufferLength - pduHeaderLen) P.request := by
  refine ⟨_, _, _, _, rfl, ?_, fun hc => absurd hc (by decide)⟩
  have hname := (of_checkArgs P.accepted).1
  rw [length_requestPayload]
  simp only [Server.requestBufferLength, maxFilenameLength, sizeOfWindowSizeVar, sizeOfBufSizeVar,
    pduHeaderLen] at hname ⊢
  omega

/-- Whatever is on its way to the server is the request, or a reply to a child. -/
theorem Copying.toServer_pdu (h : P.Copying net) {x : Sent} (hx : x ∈ net.toServer) :
    (x.datagram.dest = P.serverAddr ∧ x.datagram.bytes = P.request) ∨
      (x.datagram.dest ≠ P.serverAddr ∧ IsPdu rcopyResponsesPacketLength x.datagram.bytes) := by
  by_cases hmain : x.datagram.dest = P.serverAddr
  · exact .inl ⟨hmain, h.requests x hx hmain⟩
  · refine .inr ⟨hmain, ?_⟩
    obtain ⟨hstate, hsrc, hlink⟩ := (h.paired.toServer x hx).resolve_left hmain
    obtain ⟨c, hc, heq⟩ := List.mem_map.mp hlink
    obtain ⟨k, hk⟩ := List.mem_iff_getElem?.mp hc
    obtain ⟨addr, client, server⟩ := c
    obtain ⟨haddr, hclient⟩ := Prod.mk.inj heq
    cases server with
    | none => exact absurd (hsrc.symm.trans hclient.symm) ((h.silent k addr client hk).2 hstate)
    | some s =>
        obtain ⟨tnet, hreach, hfollows⟩ := h.follows k addr client s hk
        have hmem : x ∈ net.toServer.filter (Sent.isFor addr) :=
          List.mem_filter.mpr ⟨hx, beq_iff_eq.mpr haddr.symm⟩
        rw [hfollows.toServer] at hmem
        obtain ⟨d, hd, rfl⟩ := List.mem_map.mp hmem
        obtain ⟨L, K, m, a, hinOrder⟩ := Transfer.inOrder_of_reachable hreach
        obtain ⟨toRcopy, toServer, hjoint, -, hsub⟩ := hinOrder.joint
        obtain ⟨-, c, hencodes, -⟩ := hjoint.toServer d (hsub hd)
        exact hencodes.isPdu

/-- Some of the datagrams to the server are lost. -/
theorem reachable_toServer {queue : List Sent} (h : P.system.Reachable net)
    (hsub : queue.Sublist net.toServer) : P.system.Reachable { net with toServer := queue } :=
  hsub.of_eraseIdx (Q := fun queue => P.system.Reachable { net with toServer := queue })
    (fun _ k hreach => hreach.step (i := .loseToServer k) ⟨trivial, rfl⟩) h

theorem reachable_toRcopy {queue : List Sent} (h : P.system.Reachable net)
    (hsub : queue.Sublist net.toRcopy) : P.system.Reachable { net with toRcopy := queue } :=
  hsub.of_eraseIdx (Q := fun queue => P.system.Reachable { net with toRcopy := queue })
    (fun _ k hreach => hreach.step (i := .loseToRcopy k) ⟨trivial, rfl⟩) h

end

end Copy

/-! ## What the library lets through -/

namespace SendErr

/-- The library of a process that has initialised it again at most `n` times. -/
def Running (env : Environment) (rate : CFloat) (n : Nat) (l : SendErr) : Prop :=
  ∃ log, (runs env rate).Reachable (l, log) ∧ inits log ≤ n

section
variable {env : Environment} {rate : CFloat} {n : Nat} {l : SendErr}

theorem Running.initial (h : (calls env rate).init l) : Running env rate 0 l :=
  ⟨[], .init ⟨h, rfl⟩, Nat.le_refl 0⟩

theorem Running.forkMod (h : Running env rate n l) (child : Bool) :
    Running env rate n (l.forkMod child) := by
  obtain ⟨log, hreach, hfew⟩ := h
  refine ⟨log ++ [.forkMod child], hreach.step (i := .forkMod child) ⟨rfl, rfl⟩, ?_⟩
  rw [inits_append]
  exact hfew

theorem Running.init (h : Running env rate n l) (time time' : Int) :
    Running env rate (n + 1) (l.init (initArgs rate time time')) := by
  obtain ⟨log, hreach, hfew⟩ := h
  refine ⟨log ++ [.init (initArgs rate time time')],
    hreach.step (i := .init (initArgs rate time time')) ⟨⟨rfl, rfl⟩, rfl⟩, ?_⟩
  rw [inits_append]
  exact Nat.succ_le_succ hfew

/-- **What the library makes of PDUs**: it never fails, and lets some of them through. -/
theorem Running.pass (h : Running env rate n l) (hn : n < 2 ^ 22) {xs : List Sent}
    (hxs : ∀ x ∈ xs, IsPdu 1400 x.datagram.bytes) : ∃ l' ys zs, l.pass xs = some (l', zs) ∧
      Running env rate n l' ∧ ys.Sublist xs ∧ List.Forall₂ Sent.Becomes ys zs := by
  induction xs generalizing l with
  | nil => exact ⟨l, [], [], rfl, h, .slnil, .nil⟩
  | cons x xs ih =>
      obtain ⟨log, hreach, hfew⟩ := h
      obtain ⟨o, s, flag, payload, hbytes, hlen, hnumber⟩ := hxs x List.mem_cons_self
      have hfew' : inits log < 2 ^ 22 := Nat.lt_of_le_of_lt hfew hn
      obtain ⟨wire, m, hsend, hwire⟩ :=
        (settled_of_reachable hreach hfew').sendtoErr_pdu hfew' o s hlen hnumber
      rw [← hbytes] at hsend hwire
      have hnext : Running env rate n { l with pktMgr := m } := by
        refine ⟨log ++ [.sendtoErr x.datagram.bytes wire],
          hreach.step (i := .sendtoErr x.datagram.bytes wire) ⟨⟨_, hsend, rfl, rfl⟩, rfl⟩, ?_⟩
        rw [inits_append]
        exact hfew
      obtain ⟨l', ys, zs, hpass, hl', hsub, hbecome⟩ :=
        ih hnext fun y hy => hxs y (List.mem_cons_of_mem x hy)
      have hall : l.pass (x :: xs) = some (l',
          wire.toList.map (fun b => Sent.mk x.src ⟨x.datagram.dest, b⟩) ++ zs) := by
        simp only [SendErr.pass, hsend, hpass, Option.map_some]
      cases wire with
      | none => exact ⟨l', ys, zs, hall, hl', hsub.cons x, hbecome⟩
      | some b =>
          have hbytes : b = x.datagram.bytes ∨
              (b.length = x.datagram.bytes.length ∧ ∀ o, inCksum o b ≠ 0) := by
            rcases hwire b rfl with hkept | ⟨i, -, rfl, hsum⟩
            · exact .inl hkept
            · exact .inr ⟨List.length_set, hsum⟩
          exact ⟨l', x :: ys, _, hall, hl', hsub.cons_cons x, .cons ⟨rfl, rfl, hbytes⟩ hbecome⟩

end

end SendErr

/-! ## Steps -/

namespace Copy

section
variable {P : Copy} {net : SessionNet}

theorem next_eq_some {net' : SessionNet} {e : OrderedEvent} :
    P.next net e = some net' ↔ P.system.step net e net' := by
  unfold next
  split
  · next hwrite => exact ⟨fun h => ⟨hwrite, h⟩, fun h => h.2⟩
  · next hwrite => exact ⟨fun h => (by cases h), fun h => absurd h.1 hwrite⟩

/-! ### Receiving -/

/-- The main process rejects a request with a wrong checksum. -/
theorem Copying.rejected_main (h : P.Copying net) {x : Sent} (hx : x ∈ net.toServer)
    (hdest : x.datagram.dest = P.serverAddr) (stale datagram : Bytes)
    (hlen : datagram.length = x.datagram.bytes.length) (hsum : ∀ o, inCksum o datagram ≠ 0) :
    Rejected P.serverOrder Server.requestBufferLength stale datagram := by
  refine (damaged_of_inCksum ?_ (hsum _)).rejected
  rw [hlen, h.requests x hx hdest]
  exact (isPdu_request P).length_le

/-- A child rejects a reply with a wrong checksum. -/
theorem Copying.rejected_child (h : P.Copying net) {x : Sent} (hx : x ∈ net.toServer)
    (hdest : x.datagram.dest ≠ P.serverAddr) (stale datagram : Bytes)
    (hlen : datagram.length = x.datagram.bytes.length) (hsum : ∀ o, inCksum o datagram ≠ 0) :
    Rejected P.serverOrder (pduHeaderLen + rcopyResponsesPacketLength) stale datagram := by
  obtain ⟨hmain, -⟩ | ⟨-, hpdu⟩ := h.toServer_pdu hx
  · exact absurd hmain hdest
  · exact (damaged_of_inCksum (hlen ▸ hpdu.length_le) (hsum _)).rejected

/-- rcopy notices it, whatever it is. -/
theorem Copying.damaged_rcopy (h : P.Copying net) {x : Sent} (hx : x ∈ net.toRcopy)
    (stale datagram : Bytes) (hlen : datagram.length = x.datagram.bytes.length)
    (hsum : ∀ o, inCksum o datagram ≠ 0) :
    Damaged P.rcopyOrder (pduHeaderLen + P.args.size P.accepted) stale datagram :=
  damaged_of_inCksum (hlen ▸ (h.toRcopy_pdu hx).length_le) (hsum _)

/-! ### Steps of the copy

Where the queues are what the libraries have made of others, a step is also one with those. -/

section
variable {net₁ : SessionNet} {toServer toRcopy : List Sent}

theorem Copying.serve_becomes (h : P.Copying net)
    (hserver : List.Forall₂ Sent.Becomes net.toServer toServer) {k : Nat} {stale datagram : Bytes}
    {childAddr : Addr} (hstep : P.session.Ordered { net with
      toServer := toServer
      toRcopy := toRcopy } (.serve k stale datagram childAddr) net₁) :
    ∃ queue xs, List.Forall₂ Sent.Becomes queue net₁.toServer ∧ net₁.toRcopy = toRcopy ++ xs ∧
      net₁.children.length = net.children.length + 1 ∧
      P.session.Ordered net (.serve k stale datagram childAddr)
        { net₁ with toServer := queue, toRcopy := net.toRcopy ++ xs } := by
  cases hstep with
  | @serve _ _ _ _ y hk hreceived hfresh server ds hfork =>
      obtain ⟨z, hz, hbecomes⟩ := hserver.of_getElem? hk
      rw [hbecomes.src] at hreceived hfork ⊢
      have hreceived' := hbecomes.receivedAs (h.rejected_main (List.mem_of_getElem? hz)
        (hbecomes.dest.symm.trans hreceived.1)) hreceived
      exact ⟨_, _, hserver.eraseIdx k, rfl, List.length_append,
        .serve hz hreceived' hfresh hfork⟩

theorem Copying.child_becomes (h : P.Copying net)
    (hserver : List.Forall₂ Sent.Becomes net.toServer toServer) {k : Nat} {i : ServerInput}
    (hstep : P.session.Ordered { net with toServer := toServer, toRcopy := toRcopy } (.child k i)
      net₁) :
    ∃ queue xs, List.Forall₂ Sent.Becomes queue net₁.toServer ∧ net₁.toRcopy = toRcopy ++ xs ∧
      k < net.children.length ∧ net₁.children.length = net.children.length ∧
      P.session.Ordered net (.child k i)
        { net₁ with toServer := queue, toRcopy := net.toRcopy ++ xs } := by
  cases hstep with
  | @child _ _ addr client s s' ds queue' hk htake hstep =>
      have hk' : net.children[k]? = some ⟨addr, client, some s⟩ := hk
      have hmain := linked_ne h.paired (mem_links hk')
      obtain ⟨queue, htake', hqueue⟩ := takeAt_becomes hserver
        (fun x hx hdest => h.rejected_child hx (hdest ▸ hmain)) htake
      exact ⟨queue, _, hqueue, rfl, (List.getElem?_eq_some_iff.mp hk').1, List.length_set,
        .child hk' htake' hstep⟩

theorem Copying.filename_becomes (h : P.Copying net)
    (hrcopy : List.Forall₂ Sent.Becomes net.toRcopy toRcopy) {p : Poll} {newSocket : Addr}
    (hstep : P.session.Ordered { net with toServer := toServer, toRcopy := toRcopy }
      (.filename p newSocket) net₁) :
    ∃ queue xs, List.Forall₂ Sent.Becomes queue net₁.toRcopy ∧ net₁.toServer = toServer ++ xs ∧
      net₁.children = net.children ∧
      P.session.Ordered net (.filename p newSocket)
        { net₁ with toServer := net.toServer ++ xs, toRcopy := queue } := by
  cases hstep with
  | filename hwaits htake hfresh hfilename =>
      obtain ⟨queue, htake', hqueue⟩ :=
        takeAt_becomes hrcopy (fun x hx _ => h.damaged_rcopy hx) htake
      exact ⟨queue, _, hqueue, rfl, rfl, .filename hwaits htake' hfresh hfilename⟩

theorem Copying.transfer_becomes (h : P.Copying net)
    (hrcopy : List.Forall₂ Sent.Becomes net.toRcopy toRcopy) {i : RcopyInput}
    (hstep : P.session.Ordered { net with toServer := toServer, toRcopy := toRcopy }
      (.transfer i) net₁) :
    ∃ queue xs, List.Forall₂ Sent.Becomes queue net₁.toRcopy ∧ net₁.toServer = toServer ++ xs ∧
      net₁.children = net.children ∧
      P.session.Ordered net (.transfer i)
        { net₁ with toServer := net.toServer ++ xs, toRcopy := queue } := by
  cases hstep with
  | transfer hr htake hstep =>
      obtain ⟨queue, htake', hqueue⟩ := takeAt_becomes hrcopy
        (fun _ hx _ _ _ hlen hsum => (h.damaged_rcopy hx _ _ hlen hsum).rejected) htake
      exact ⟨queue, _, hqueue, rfl, rfl, .transfer hr htake' hstep⟩

end

/-! ### Sending -/

variable {env : Environment} {rate : CFloat} {n : Nat} {l : SendErr} {queue xs : List Sent}

/-- What is sent to rcopy through a library is sent, and some of it lost. -/
theorem pass_toRcopy (h : P.system.Reachable net) (hto : net.toRcopy = queue ++ xs)
    (hl : l.Running env rate n) (hn : n < 2 ^ 22) : ∃ l' ys zs, l.pass xs = some (l', zs) ∧
      l'.Running env rate n ∧ ys.Sublist xs ∧ List.Forall₂ Sent.Becomes ys zs ∧
      P.system.Reachable { net with toRcopy := queue ++ ys } := by
  have hsize := (P.args.size P.accepted).2.2
  obtain ⟨l', ys, zs, hpass, hl', hsub, hbecome⟩ := hl.pass hn fun x hx =>
    ((copying_of_reachable h).toRcopy_pdu (hto ▸ List.mem_append_right _ hx)).mono hsize
  exact ⟨l', ys, zs, hpass, hl', hsub, hbecome,
    reachable_toRcopy h (hto ▸ hsub.append_left queue)⟩

theorem pass_toServer (h : P.system.Reachable net) (hto : net.toServer = queue ++ xs)
    (hl : l.Running env rate n) (hn : n < 2 ^ 22) : ∃ l' ys zs, l.pass xs = some (l', zs) ∧
      l'.Running env rate n ∧ ys.Sublist xs ∧ List.Forall₂ Sent.Becomes ys zs ∧
      P.system.Reachable { net with toServer := queue ++ ys } := by
  have hpdu (x : Sent) (hx : x ∈ xs) : IsPdu 1400 x.datagram.bytes := by
    have hmem : x ∈ net.toServer := hto ▸ List.mem_append_right _ hx
    obtain ⟨-, hbytes⟩ | ⟨-, hpdu⟩ := (copying_of_reachable h).toServer_pdu hmem
    · rw [hbytes]
      exact (isPdu_request P).mono (by decide)
    · exact hpdu.mono (by decide)
  obtain ⟨l', ys, zs, hpass, hl', hsub, hbecome⟩ := hl.pass hn hpdu
  exact ⟨l', ys, zs, hpass, hl', hsub, hbecome,
    reachable_toServer h (hto ▸ hsub.append_left queue)⟩

end

end Copy

/-! ### Both -/

namespace ErrorCopy

variable (P : ErrorCopy)

/-- The session as the programs see it is a run of the copy, in which what has been damaged is still
as it was sent. -/
structure Shows (net : SessionNet) (x : ErrorNet) : Prop where
  reachable : P.copy.system.Reachable net
  queues : ∃ toServer toRcopy, x.net = { net with toServer := toServer, toRcopy := toRcopy } ∧
    List.Forall₂ Sent.Becomes net.toServer toServer ∧
    List.Forall₂ Sent.Becomes net.toRcopy toRcopy
  rcopy : x.rcopy.Running P.rcopyEnv P.rcopyRate 0
  main : x.main.Running P.serverEnv P.serverRate 0
  length : x.children.length = net.children.length
  children : ∀ l ∈ x.children, l.Running P.serverEnv P.serverRate 1

/-- `net'` is `net` after the libraries: the programs are the same, and of what is on its way some
is missing or damaged. -/
structure Thinned (net net' : SessionNet) : Prop where
  programs : net' = { net with toServer := net'.toServer, toRcopy := net'.toRcopy }
  toServer : ∃ ys, ys.Sublist net.toServer ∧ List.Forall₂ Sent.Becomes ys net'.toServer
  toRcopy : ∃ ys, ys.Sublist net.toRcopy ∧ List.Forall₂ Sent.Becomes ys net'.toRcopy

variable {P}

section
variable {net net₁ : SessionNet} {x : ErrorNet} {l : SendErr} {xs zs : List Sent} {time time' : Int}

theorem next_serve {k : Nat} {stale datagram : Bytes} {childAddr : Addr}
    (hnext : P.copy.next x.net (.session (.serve k stale datagram childAddr)) = some net₁)
    (hto : net₁.toRcopy = x.net.toRcopy ++ xs)
    (hpass : (P.forked x.main time time').pass xs = some (l, zs)) :
    P.next x ⟨.session (.serve k stale datagram childAddr), time, time'⟩ = some { x with
      net := { net₁ with toRcopy := x.net.toRcopy ++ zs }
      main := x.main.forkMod false
      children := x.children ++ [l] } := by
  simp only [next, hnext, hto, List.drop_left, hpass, Option.map_some]

theorem next_child {k : Nat} {i : ServerInput} {child : SendErr} (hk : x.children[k]? = some child)
    (hnext : P.copy.next x.net (.session (.child k i)) = some net₁)
    (hto : net₁.toRcopy = x.net.toRcopy ++ xs) (hpass : child.pass xs = some (l, zs)) :
    P.next x ⟨.session (.child k i), time, time'⟩ = some { x with
      net := { net₁ with toRcopy := x.net.toRcopy ++ zs }
      children := x.children.set k l } := by
  simp only [next, hnext, hk, hto, List.drop_left, hpass, Option.map_some]

theorem next_filename {p : Poll} {newSocket : Addr}
    (hnext : P.copy.next x.net (.session (.filename p newSocket)) = some net₁)
    (hto : net₁.toServer = x.net.toServer ++ xs) (hpass : x.rcopy.pass xs = some (l, zs)) :
    P.next x ⟨.session (.filename p newSocket), time, time'⟩ = some { x with
      net := { net₁ with toServer := x.net.toServer ++ zs }
      rcopy := l } := by
  simp only [next, hnext, hto, List.drop_left, hpass, Option.map_some]

theorem next_transfer {i : RcopyInput}
    (hnext : P.copy.next x.net (.session (.transfer i)) = some net₁)
    (hto : net₁.toServer = x.net.toServer ++ xs) (hpass : x.rcopy.pass xs = some (l, zs)) :
    P.next x ⟨.session (.transfer i), time, time'⟩ = some { x with
      net := { net₁ with toServer := x.net.toServer ++ zs }
      rcopy := l } := by
  simp only [next, hnext, hto, List.drop_left, hpass, Option.map_some]

theorem forall₂_becomes (xs : List Sent) : List.Forall₂ Sent.Becomes xs xs :=
  List.forall₂_same.mpr fun _ _ => ⟨rfl, rfl, .inl rfl⟩

theorem Thinned.refl (net : SessionNet) : Thinned net net :=
  ⟨rfl, ⟨_, .refl _, forall₂_becomes _⟩, ⟨_, .refl _, forall₂_becomes _⟩⟩

theorem Thinned.of_toRcopy {queue ys : List Sent} (hto : net.toRcopy = queue ++ xs)
    (hsub : ys.Sublist xs) (hbecome : List.Forall₂ Sent.Becomes ys zs) :
    Thinned net { net with toRcopy := queue ++ zs } :=
  ⟨rfl, ⟨_, .refl _, forall₂_becomes _⟩, ⟨queue ++ ys, hto ▸ hsub.append_left queue,
    List.rel_append (forall₂_becomes queue) hbecome⟩⟩

theorem Thinned.of_toServer {queue ys : List Sent} (hto : net.toServer = queue ++ xs)
    (hsub : ys.Sublist xs) (hbecome : List.Forall₂ Sent.Becomes ys zs) :
    Thinned net { net with toServer := queue ++ zs } :=
  ⟨rfl, ⟨queue ++ ys, hto ▸ hsub.append_left queue,
    List.rel_append (forall₂_becomes queue) hbecome⟩, ⟨_, .refl _, forall₂_becomes _⟩⟩

/-- The main process forks a child. -/
theorem Shows.serve (h : P.Shows net x) {k : Nat} {stale datagram : Bytes} {childAddr : Addr}
    (hnext : P.copy.next x.net (.session (.serve k stale datagram childAddr)) = some net₁) :
    ∃ net' x', P.next x ⟨.session (.serve k stale datagram childAddr), time, time'⟩ = some x' ∧
      P.Shows net' x' ∧ Thinned net₁ x'.net := by
  obtain ⟨toServer, toRcopy, hnet, hserver, hrcopy⟩ := h.queues
  have hstep := Session.ordered_of_fifoNext (Copy.next_eq_some.mp hnext).2
  rw [hnet] at hstep
  obtain ⟨queue, xs, hqueue, hto, hlength, hstep'⟩ :=
    (Copy.copying_of_reachable h.reachable).serve_becomes hserver hstep
  obtain ⟨child, ys, zs, hpass, hchild, hsub, hbecome, hreach⟩ := Copy.pass_toRcopy
    (h.reachable.step (i := .session (.serve k stale datagram childAddr))
      ⟨trivial, Session.fifoNext_of_ordered hstep'⟩)
    rfl ((h.main.forkMod true).init time time') (by decide)
  have hown : x.net.toRcopy = toRcopy := by rw [hnet]
  refine ⟨_, _, next_serve hnext (hown ▸ hto) hpass, ⟨hreach,
    ⟨net₁.toServer, toRcopy ++ zs, by rw [hown], hqueue, List.rel_append hrcopy hbecome⟩, h.rcopy,
    h.main.forkMod false, ?_, fun l hl => ?_⟩, .of_toRcopy (hown ▸ hto) hsub hbecome⟩
  · rw [List.length_append, h.length]
    exact hlength.symm
  · rcases List.mem_append.mp hl with hl | hl
    · exact h.children l hl
    · rw [List.mem_singleton.mp hl]
      exact hchild

/-- A child takes a step. -/
theorem Shows.child (h : P.Shows net x) {k : Nat} {i : ServerInput}
    (hnext : P.copy.next x.net (.session (.child k i)) = some net₁) :
    ∃ net' x', P.next x ⟨.session (.child k i), time, time'⟩ = some x' ∧ P.Shows net' x' ∧
      Thinned net₁ x'.net := by
  obtain ⟨toServer, toRcopy, hnet, hserver, hrcopy⟩ := h.queues
  have hstep := Session.ordered_of_fifoNext (Copy.next_eq_some.mp hnext).2
  rw [hnet] at hstep
  obtain ⟨queue, xs, hqueue, hto, hlt, hlength, hstep'⟩ :=
    (Copy.copying_of_reachable h.reachable).child_becomes hserver hstep
  have hlt' : k < x.children.length := h.length ▸ hlt
  have hk : x.children[k]? = some x.children[k] := List.getElem?_eq_getElem hlt'
  obtain ⟨child, ys, zs, hpass, hchild, hsub, hbecome, hreach⟩ := Copy.pass_toRcopy
    (h.reachable.step (i := .session (.child k i))
      ⟨trivial, Session.fifoNext_of_ordered hstep'⟩)
    rfl (h.children _ (List.mem_of_getElem? hk)) (by decide)
  have hown : x.net.toRcopy = toRcopy := by rw [hnet]
  refine ⟨_, _, next_child hk hnext (hown ▸ hto) hpass, ⟨hreach,
    ⟨net₁.toServer, toRcopy ++ zs, by rw [hown], hqueue, List.rel_append hrcopy hbecome⟩, h.rcopy,
    h.main, ?_, fun l hl => ?_⟩, .of_toRcopy (hown ▸ hto) hsub hbecome⟩
  · rw [List.length_set, h.length]
    exact hlength.symm
  · rcases List.mem_or_eq_of_mem_set hl with hl | rfl
    · exact h.children l hl
    · exact hchild

/-- rcopy goes on from its poll in `filename`. -/
theorem Shows.filename (h : P.Shows net x) {p : Poll} {newSocket : Addr}
    (hnext : P.copy.next x.net (.session (.filename p newSocket)) = some net₁) :
    ∃ net' x', P.next x ⟨.session (.filename p newSocket), time, time'⟩ = some x' ∧
      P.Shows net' x' ∧ Thinned net₁ x'.net := by
  obtain ⟨toServer, toRcopy, hnet, hserver, hrcopy⟩ := h.queues
  have hstep := Session.ordered_of_fifoNext (Copy.next_eq_some.mp hnext).2
  rw [hnet] at hstep
  obtain ⟨queue, xs, hqueue, hto, hchildren, hstep'⟩ :=
    (Copy.copying_of_reachable h.reachable).filename_becomes hrcopy hstep
  obtain ⟨rcopy, ys, zs, hpass, hl, hsub, hbecome, hreach⟩ := Copy.pass_toServer
    (h.reachable.step (i := .session (.filename p newSocket))
      ⟨trivial, Session.fifoNext_of_ordered hstep'⟩) rfl h.rcopy (by decide)
  have hown : x.net.toServer = toServer := by rw [hnet]
  exact ⟨_, _, next_filename hnext (hown ▸ hto) hpass, ⟨hreach,
    ⟨toServer ++ zs, net₁.toRcopy, by rw [hown], List.rel_append hserver hbecome, hqueue⟩, hl,
    h.main, h.length.trans (congrArg List.length hchildren.symm), h.children⟩,
    .of_toServer (hown ▸ hto) hsub hbecome⟩

/-- rcopy takes a step of the transfer. -/
theorem Shows.transfer (h : P.Shows net x) {i : RcopyInput}
    (hnext : P.copy.next x.net (.session (.transfer i)) = some net₁) :
    ∃ net' x', P.next x ⟨.session (.transfer i), time, time'⟩ = some x' ∧ P.Shows net' x' ∧
      Thinned net₁ x'.net := by
  obtain ⟨toServer, toRcopy, hnet, hserver, hrcopy⟩ := h.queues
  obtain ⟨hwrite, hstep⟩ := Copy.next_eq_some.mp hnext
  have hstep := Session.ordered_of_fifoNext hstep
  rw [hnet] at hstep
  obtain ⟨queue, xs, hqueue, hto, hchildren, hstep'⟩ :=
    (Copy.copying_of_reachable h.reachable).transfer_becomes hrcopy hstep
  obtain ⟨rcopy, ys, zs, hpass, hl, hsub, hbecome, hreach⟩ := Copy.pass_toServer
    (h.reachable.step (i := .session (.transfer i))
      ⟨hwrite, Session.fifoNext_of_ordered hstep'⟩) rfl h.rcopy (by decide)
  have hown : x.net.toServer = toServer := by rw [hnet]
  exact ⟨_, _, next_transfer hnext (hown ▸ hto) hpass, ⟨hreach,
    ⟨toServer ++ zs, net₁.toRcopy, by rw [hown], List.rel_append hserver hbecome, hqueue⟩, hl,
    h.main, h.length.trans (congrArg List.length hchildren.symm), h.children⟩,
    .of_toServer (hown ▸ hto) hsub hbecome⟩

/-- **The programs notice nothing but losses**: whatever step they can take, they can take through
their libraries, and it looks to them like one of the copy, after which something was lost. -/
theorem Shows.step (h : P.Shows net x) {e : ErrorEvent}
    (hnext : P.copy.next x.net e.event = some net₁) :
    ∃ net' x', P.next x e = some x' ∧ P.Shows net' x' ∧ Thinned net₁ x'.net := by
  obtain ⟨e, time, time'⟩ := e
  obtain ⟨toServer, toRcopy, hnet, hserver, hrcopy⟩ := h.queues
  cases e with
  | session e =>
      cases e with
      | serve k stale datagram childAddr => exact h.serve hnext
      | child k i => exact h.child hnext
      | filename p newSocket => exact h.filename hnext
      | fileOkay =>
          have hstep := Session.ordered_of_fifoNext (Copy.next_eq_some.mp hnext).2
          rw [hnet] at hstep
          cases hstep with
          | fileOkay hstate hnone hstart =>
              refine ⟨_, { x with net := _ }, by simp only [next, hnext],
                ⟨h.reachable.step (i := .session .fileOkay)
                  ⟨trivial, Session.fifoNext_of_ordered (.fileOkay hstate hnone hstart)⟩,
                ⟨toServer, toRcopy, rfl, hserver, hrcopy⟩, h.rcopy, h.main, h.length, h.children⟩,
                .refl _⟩
      | transfer i => exact h.transfer hnext
  | loseToServer k =>
      cases (Copy.next_eq_some.mp hnext).2
      refine ⟨_, { x with net := { x.net with toServer := x.net.toServer.eraseIdx k } },
        by simp only [next, hnext], ⟨h.reachable.step (i := .loseToServer k) ⟨trivial, rfl⟩,
        ⟨toServer.eraseIdx k, toRcopy, by rw [hnet], hserver.eraseIdx k, hrcopy⟩, h.rcopy, h.main,
        h.length, h.children⟩, .refl _⟩
  | loseToRcopy k =>
      cases (Copy.next_eq_some.mp hnext).2
      refine ⟨_, { x with net := { x.net with toRcopy := x.net.toRcopy.eraseIdx k } },
        by simp only [next, hnext], ⟨h.reachable.step (i := .loseToRcopy k) ⟨trivial, rfl⟩,
        ⟨toServer, toRcopy.eraseIdx k, by rw [hnet], hserver, hrcopy.eraseIdx k⟩, h.rcopy, h.main,
        h.length, h.children⟩, .refl _⟩

/-! ## Runs -/

/-- rcopy's first request goes through its library as well. -/
theorem Shows.initial (h : P.Initial x) : ∃ net, P.Shows net x := by
  obtain ⟨net, l, sent, hinit, hl, hpass, hnet⟩ := h.sent
  obtain ⟨l', ys, zs, hpass', hl', -, hbecome, hreach⟩ :=
    Copy.pass_toServer (.init hinit) (List.nil_append net.toServer).symm (.initial hl) (by decide)
  obtain ⟨rfl, rfl⟩ := Prod.mk.inj (Option.some.inj (hpass.symm.trans hpass'))
  have hempty := hinit.toRcopy
  have hchildren := hinit.children
  exact ⟨_, hreach, ⟨sent, net.toRcopy, hnet, hbecome, forall₂_becomes _⟩, hl', .initial h.main,
    by rw [h.children]; exact (congrArg List.length hchildren).symm,
    fun l hl => by rw [h.children] at hl; cases hl⟩

theorem shows_of_reachable (h : P.system.Reachable x) : ∃ net, P.Shows net x := by
  refine System.Reachable.invariant (S := P.system) (P := fun x => ∃ net, P.Shows net x)
    (fun _ => Shows.initial) ?_ h
  rintro x e x' - ⟨net, hshows⟩ hstep
  have hstep' : P.next x e = some x' := hstep
  cases hnext : P.copy.next x.net e.event with
  | none =>
      rw [next, hnext] at hstep'
      cases hstep'
  | some net₁ =>
      obtain ⟨net', x'', hx'', hshows', -⟩ := hshows.step hnext
      cases hstep'.symm.trans hx''
      exact ⟨net', hshows'⟩

/-- **The file is copied through the library**, whatever error rates, environments and seeds there
are, and whatever the network loses or damages besides. -/
theorem written_of_reachable (h : P.system.Reachable x) {r : Rcopy}
    (hr : x.net.transfer = some r) : ∃ (k current : Nat) (s : Server),
      x.net.children[k]? = some ⟨r.serverAddress, x.net.rcopy.clientSocket, some s⟩ ∧
      r.window.current = current ∧ r.outputFile = P.copy.blocks.take current ∧
      s.window.lower ≤ current ∧ current ≤ s.window.current ∧
      (r.point = .done .eofAck ∨ s.point = .done .eofAck →
        r.point = .done .eofAck ∧ r.outputFile = P.copy.blocks) := by
  obtain ⟨net, hshows⟩ := shows_of_reachable h
  obtain ⟨toServer, toRcopy, hnet, -⟩ := hshows.queues
  rw [hnet] at hr ⊢
  exact (Copy.copying_of_reachable hshows.reachable).copied hr

/-- **No program is held up by its library**: whatever step the programs could take without it,
they take, and nothing else is different than that of what is on its way some is missing, and some
is damaged so that every receiver notices. -/
theorem thinned_of_reachable (h : P.system.Reachable x) {e : ErrorEvent}
    (hnext : P.copy.next x.net e.event = some net₁) :
    ∃ x', P.next x e = some x' ∧ Thinned net₁ x'.net := by
  obtain ⟨net, hshows⟩ := shows_of_reachable h
  obtain ⟨-, x', hx', -, hthinned⟩ := hshows.step hnext
  exact ⟨x', hx', hthinned⟩

end

/-! ## Runs that are computed -/

/-- Both programs begin at the same time. -/
def begun (P : ErrorCopy) (net : SessionNet) (time : Int) : Option ErrorNet :=
  (((SendErr.load P.rcopyEnv time).init (initArgs P.rcopyRate time time)).pass net.toServer).map
    fun (rcopy, sent) =>
      { net := { net with toServer := sent }
        rcopy := rcopy
        main := (SendErr.load P.serverEnv time).init (initArgs P.serverRate time time)
        children := [] }

theorem exists_of_begun {P : ErrorCopy} {net : SessionNet} (h : P.copy.session.Initial net)
    (time : Int) (events : List ErrorEvent) (p : ErrorNet → Bool)
    (hrun : ((P.begun net time).bind fun x => System.run P.next x events).any p = true) :
    ∃ x, P.system.Reachable x ∧ p x = true := by
  cases hbegun : P.begun net time with
  | none =>
      rw [hbegun] at hrun
      cases hrun
  | some x =>
      rw [hbegun] at hrun
      obtain ⟨⟨rcopy, sent⟩, hpass, rfl⟩ := Option.map_eq_some_iff.mp hbegun
      refine (System.Reachable.init ?_).exists_of_run P.next (fun _ e _ hnext => ⟨e, hnext⟩)
        events p hrun
      exact ⟨⟨time, initArgs P.serverRate time time, rfl, rfl⟩, rfl, net, _, sent, h,
        ⟨time, initArgs P.rcopyRate time time, rfl, rfl⟩, hpass, rfl⟩

/-! ### A block that the library damages -/

/-- The small copy, with a server that is to have an error rate of a half. -/
def smallErrorCopy : ErrorCopy where
  copy := Copy.smallCopy
  rcopyEnv := ⟨none, none, none, none⟩
  rcopyRate := .finite 0
  serverEnv := ⟨none, none, none, none⟩
  serverRate := .finite (1 / 2)

/-- The block of the only child is damaged by its library, and resent. -/
def blockDamaged : List ErrorEvent :=
  [⟨.session (.serve 0 [] Copy.smallCopy.request 2), 5, 5⟩,
    ⟨.session (.filename (.received 2 [] (encodePDU .big 0 filenameResponseFlag [fileOk])) 9),
      0, 0⟩,
    ⟨.session .fileOkay, 0, 0⟩, ⟨.session (.child 0 (.run false 0)), 0, 0⟩,
    ⟨.session (.transfer (.poll (.received 2 []
      (errorFlipBits (encodePDU .big 0 dataPacketFlag [43]) 2)) .complete 0)), 0, 0⟩,
    ⟨.session (.child 0 (.poll .timeout)), 0, 0⟩, ⟨.session (.child 0 (.run false 0)), 0, 0⟩,
    ⟨.session (.child 0 (.run false 0)), 0, 0⟩,
    ⟨.session (.transfer (.poll (.received 2 [] (encodePDU .big 1 eofFlag [0])) .complete 0)),
      0, 0⟩,
    ⟨.session (.child 0 (.poll (.received 7 []
      (encodePDU .little 1 srejFlag (ByteOrder.bytes32 .big 0))))), 0, 0⟩,
    ⟨.session (.transfer (.poll (.received 2 []
      (encodePDU .big 0 resentSrejDataPacketFlag [43])) .complete 0)), 0, 0⟩,
    ⟨.session (.transfer (.flush .complete 0)), 0, 0⟩]

theorem written_smallErrorCopy : ∃ x r, smallErrorCopy.system.Reachable x ∧
    x.net.transfer = some r ∧ r.point = .done .eofAck ∧ r.outputFile = [[43]] := by
  obtain ⟨x, hx, hp⟩ := exists_of_begun (P := smallErrorCopy) Copy.initial_smallCopyNet 1
    blockDamaged (fun x => decide (x.net.transfer.map Rcopy.point = some (.done .eofAck)))
    (by decide +kernel)
  obtain ⟨r, hr, hdone⟩ := Option.map_eq_some_iff.mp (of_decide_eq_true hp)
  obtain ⟨k, current, s, -, -, -, -, -, hwritten⟩ := written_of_reachable hx hr
  exact ⟨x, r, hx, hr, hdone, (hwritten (.inl hdone)).2⟩

/-- The child sends the block, and its library damages it. -/
theorem thinned_smallErrorCopy : ∃ x net₁ x', smallErrorCopy.system.Reachable x ∧
    smallErrorCopy.copy.next x.net (.session (.child 0 (.run false 0))) = some net₁ ∧
    smallErrorCopy.next x ⟨.session (.child 0 (.run false 0)), 0, 0⟩ = some x' ∧
    Thinned net₁ x'.net ∧ x'.net.toRcopy ≠ net₁.toRcopy := by
  obtain ⟨x, hx, hp⟩ := exists_of_begun (P := smallErrorCopy) Copy.initial_smallCopyNet 1
    (blockDamaged.take 3) (fun x =>
      (smallErrorCopy.copy.next x.net (.session (.child 0 (.run false 0)))).any
        fun net₁ : SessionNet =>
          (smallErrorCopy.next x ⟨.session (.child 0 (.run false 0)), 0, 0⟩).any
            fun x' : ErrorNet => decide (x'.net.toRcopy ≠ net₁.toRcopy)) (by decide +kernel)
  obtain ⟨net₁, hnext, hp⟩ := (Option.any_eq_true _ _).mp hp
  obtain ⟨x', hx', hne⟩ := (Option.any_eq_true _ _).mp hp
  obtain ⟨x'', hx'', hthinned⟩ :=
    thinned_of_reachable hx (e := ⟨.session (.child 0 (.run false 0)), 0, 0⟩) hnext
  cases hx'.symm.trans hx''
  exact ⟨x, net₁, x', hx, hnext, hx', hthinned, of_decide_eq_true hne⟩

end ErrorCopy

end RemoteCopy
