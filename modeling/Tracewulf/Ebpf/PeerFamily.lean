import Tracewulf.Ebpf.Addressing

/-! Peers of both address families. `tcp_sendmsg` runs for IPv4 and IPv6 sockets alike, and an IPv6
socket keeps its peer elsewhere: what the record carries of it are the four bytes of `skc_daddr`,
and they are shown as an IPv4 address. -/
namespace Tracewulf.Ebpf
open Tracewulf.Base Tracewulf.Bpf Tracewulf.K8s

/-- `skc_family` of a TCP socket. -/
inductive Family
  | inet
  | inet6
  deriving DecidableEq

/-- The common part of a TCP socket: what the programs read of it, and the two fields that say who
its peer is where that is not `skc_daddr`. -/
structure TcpSock where
  common : SockCommon
  skcFamily : Family
  skcV6Daddr : Fin 16 → UInt8

/-- A peer is its family and its address, in network byte order. -/
def TcpSock.peer (s : TcpSock) : Family × Bytes :=
  (s.skcFamily,match s.skcFamily with
    | .inet => LittleEndian.encode 4 s.common.skcDaddr.toNat
    | .inet6 => List.ofFn s.skcV6Daddr)

/-- The text that the reader makes of the peer. -/
def TcpSock.dstText (s : TcpSock) : String := (ipOfWord s.common.skcDaddr).toText

/-- A lookup of the text finds no pod and no service. -/
def NotFound (text : String) : (q : CacheQuery) → q.Answer → Prop
  | .lookupPod ip, found => ip = text → found = none
  | .lookupService ip, found => ip = text → found = none
  | .lookupNode _, _ => True

/-- A `tcp_sendmsg` on the socket whose record has been handled, each lookup by the cache of its
moment, without finding the peer; `args` is what the aggregator was given. -/
structure UnresolvedSend (s : TcpSock) where
  ctx : Ctx
  sk : Sock
  size : UInt64
  mem : Bytes
  caches : List Cache
  call : Time → Call
  now : Time
  args : FlowArgs
  holds : ctx.sockCommon sk = s.common
  laidOut : (sockEvent ctx sk size EventType.send).LaidOut mem
  notFound : ∀ c ∈ caches, c.lookupPod s.dstText = none ∧ c.lookupService s.dstText = none
  handled : (handleRecord mem).evalInTurn (caches.map CacheQuery.answer) = some (some call)
  recorded : (call now).args = some args

section Lookups

variable {src dst cls : String} {port : UInt16} {call : FlowArgs → Call}

lemma resolveName_notFound (ip : String) :
    (resolveName ip).EndsUnder (NotFound ip) fun name => name = ip := by
  intro pod hpod
  obtain rfl := hpod rfl
  intro svc hsvc
  obtain rfl := hsvc rfl
  rfl

/-- A destination that is not found is recorded under its own text. -/
lemma resolveFlow_notFound : (resolveFlow src dst port cls call).EndsUnder (NotFound dst) fun r =>
    ∃ srcName srcZone dstZone, r = some fun now =>
      call ⟨srcName,dst,port,cls,srcZone,dstZone,now⟩ := by
  refine Resumption.endsUnder_bind (Resumption.endsUnder_true _) fun srcName _ => ?_
  refine Resumption.endsUnder_bind (resolveName_notFound dst) fun dstName hdst => ?_
  refine Resumption.endsUnder_bind (Resumption.endsUnder_true _) fun srcZone _ => ?_
  refine Resumption.endsUnder_bind (Resumption.endsUnder_true _) fun dstZone _ => ?_
  subst hdst
  exact ⟨srcName,srcZone,dstZone,rfl⟩

end Lookups

section Keys

variable {s t : TcpSock}

lemma notFound_answer {c : Cache} {text : String}
    (h : c.lookupPod text = none ∧ c.lookupService text = none) (q : CacheQuery) :
    NotFound text q (q.answer c) := by
  cases q with
  | lookupPod ip => rintro rfl; exact h.1
  | lookupService ip => rintro rfl; exact h.2
  | lookupNode name => trivial

/-- Whatever the family, the flow goes to the text of `skc_daddr` and to the peer's port. -/
lemma UnresolvedSend.recorded_dst (a : UnresolvedSend s) :
    a.args.dstName = s.dstText ∧ a.args.dstPort = swapUint16 s.common.skcDport := by
  have hdaddr : (sockEvent a.ctx a.sk a.size EventType.send).dstIp = s.common.skcDaddr :=
    congrArg SockCommon.skcDaddr a.holds
  have hdport : (sockEvent a.ctx a.sk a.size EventType.send).dstPort = s.common.skcDport :=
    congrArg SockCommon.skcDport a.holds
  have hrecord := handleRecord_send a.laidOut rfl
  rw [hdaddr, hdport] at hrecord
  have hanswers : ∀ f ∈ a.caches.map CacheQuery.answer, ∀ q, NotFound s.dstText q (f q) := by
    intro f hf q
    obtain ⟨c,hc,rfl⟩ := List.mem_map.mp hf
    exact notFound_answer (a.notFound c hc) q
  have hhandled := a.handled
  rw [hrecord] at hhandled
  obtain ⟨srcName,srcZone,dstZone,hcall⟩ :=
    resolveFlow_notFound.of_evalInTurn hanswers hhandled
  have hargs := a.recorded
  rw [Option.some.inj hcall] at hargs
  rw [← Option.some.inj hargs]
  exact ⟨rfl,rfl⟩

lemma TcpSock.space_notMem_dstText (s : TcpSock) : ' ' ∉ s.dstText.toList :=
  IPv4.notMem_toText _ (by decide) (by decide)

lemma ipOfWord_injective {v w : UInt32} (h : ipOfWord v = ipOfWord w) : v = w := by
  have hbytes : LittleEndian.encode 4 v.toNat = LittleEndian.encode 4 w.toNat := by
    rw [encode_ipOfWord, encode_ipOfWord, h]
  rw [← LittleEndian.decode_uint32 v, hbytes, LittleEndian.decode_uint32]

lemma swapUint16_injective {v w : UInt16} (h : swapUint16 v = swapUint16 w) : v = w := by
  have hbytes : LittleEndian.encode 2 v.toNat = LittleEndian.encode 2 w.toNat := by
    apply List.reverse_injective
    calc BigEndian.encode 2 v.toNat = LittleEndian.encode 2 (swapUint16 v).toNat :=
          (encode_swapUint16 v).symm
      _ = LittleEndian.encode 2 (swapUint16 w).toNat := by rw [h]
      _ = BigEndian.encode 2 w.toNat := encode_swapUint16 w
  rw [← LittleEndian.decode_uint16 v, hbytes, LittleEndian.decode_uint16]

/-- Two sends are one flow when they agree in the source's name and in the two words read. -/
lemma UnresolvedSend.key_eq_iff (a : UnresolvedSend s) (b : UnresolvedSend t) :
    a.args.key = b.args.key ↔ a.args.srcName = b.args.srcName ∧
      s.common.skcDaddr = t.common.skcDaddr ∧ s.common.skcDport = t.common.skcDport := by
  obtain ⟨hname,hport⟩ := a.recorded_dst
  obtain ⟨hname',hport'⟩ := b.recorded_dst
  rw [FlowArgs.key, FlowArgs.key, hname, hname', hport, hport',
    flowKey_inj_of_dst s.space_notMem_dstText t.space_notMem_dstText]
  constructor
  · rintro ⟨hp,hs,hd⟩
    exact ⟨hs,ipOfWord_injective (IPv4.toText_injective hd),swapUint16_injective hp⟩
  · rintro ⟨hs,hd,hp⟩
    rw [TcpSock.dstText, TcpSock.dstText, hd, hp]
    exact ⟨rfl,hs,rfl⟩

end Keys

section Families

variable {s t : TcpSock}

/-- The name reports the peer as it is: for IPv4 the text of its address, for IPv6 the text of no
IPv4 address. -/
def TcpSock.ShownAs (s : TcpSock) (name : String) : Prop :=
  match s.skcFamily with
  | .inet => ∃ ip : IPv4, s.peer.2 = ip.bytes ∧ name = ip.toText
  | .inet6 => ∀ ip : IPv4, name ≠ ip.toText

/-- The two sends count for different flows, and each flow shows its peer. -/
structure KeptApart (a : UnresolvedSend s) (b : UnresolvedSend t) : Prop where
  keys : a.args.key ≠ b.args.key
  shown : s.ShownAs a.args.dstName
  shown' : t.ShownAs b.args.dstName

lemma UnresolvedSend.shownAs_iff (a : UnresolvedSend s) :
    s.ShownAs a.args.dstName ↔ s.skcFamily = .inet := by
  rw [TcpSock.ShownAs, a.recorded_dst.1]
  cases hf : s.skcFamily with
  | inet =>
    have hpeer : s.peer.2 = (ipOfWord s.common.skcDaddr).bytes := by
      rw [TcpSock.peer, hf]
      exact encode_ipOfWord s.common.skcDaddr
    exact iff_of_true ⟨_,hpeer,rfl⟩ rfl
  | inet6 => exact iff_of_false (fun h => h _ rfl) (by decide)

lemma skcDaddr_ne_of_peer_ne (hs : s.skcFamily = .inet) (ht : t.skcFamily = .inet)
    (h : s.peer ≠ t.peer) : s.common.skcDaddr ≠ t.common.skcDaddr := by
  intro heq
  apply h
  rw [TcpSock.peer, TcpSock.peer, hs, ht, heq]

/-- Sends to two peers are kept apart, each shown as it is, exactly when both peers are IPv4. The
flows merge exactly when sources, `skc_daddr` and port are the same. -/
theorem sends_kept_apart_iff (h : s.peer ≠ t.peer) (a : UnresolvedSend s) (b : UnresolvedSend t) :
    (KeptApart a b ↔ s.skcFamily = .inet ∧ t.skcFamily = .inet) ∧
    (a.args.key = b.args.key ↔ a.args.srcName = b.args.srcName ∧
      s.common.skcDaddr = t.common.skcDaddr ∧ s.common.skcDport = t.common.skcDport) := by
  refine ⟨⟨fun hkept => ?_,?_⟩,a.key_eq_iff b⟩
  · exact ⟨a.shownAs_iff.mp hkept.shown,b.shownAs_iff.mp hkept.shown'⟩
  · rintro ⟨hs,ht⟩
    refine ⟨fun hkey => ?_,a.shownAs_iff.mpr hs,b.shownAs_iff.mpr ht⟩
    exact skcDaddr_ne_of_peer_ne hs ht h ((a.key_eq_iff b).mp hkey).2.1

end Families

section Demo

/-- A send of a hundred bytes, handled while the cache is empty. -/
def unresolvedSend (s : TcpSock) : UnresolvedSend s where
  ctx := ⟨1,fun _ => 0,fun _ => s.common,true⟩
  sk := 0
  size := 100
  mem := (sockEvent ⟨1,fun _ => 0,fun _ => s.common,true⟩ 0 100 EventType.send).fields.flatten ++
    List.replicate 7 0
  caches := List.replicate 6 newCache
  call now := .recordBytes ⟨(ipOfWord s.common.skcRcvSaddr).toText,s.dstText,
    swapUint16 s.common.skcDport,classify s.dstText,"","",now⟩ 100
  now := 0
  args := ⟨(ipOfWord s.common.skcRcvSaddr).toText,s.dstText,swapUint16 s.common.skcDport,
    classify s.dstText,"","",0⟩
  holds := rfl
  laidOut := laidOut_flatten _ rfl
  notFound c hc := by
    obtain rfl := List.eq_of_mem_replicate hc
    exact ⟨rfl,rfl⟩
  handled := by
    rw [handleRecord_send (laidOut_flatten _ rfl) rfl]
    rfl
  recorded := rfl

/-- A socket connected to port 443 of the IPv6 peer 2001:db8::n; `skc_daddr` is not set. -/
def v6Sock (n : UInt8) : TcpSock where
  common := ⟨0,0,40000,0xbb01⟩
  skcFamily := .inet6
  skcV6Daddr i := [0x20,0x01,0x0d,0xb8,0,0,0,0,0,0,0,0,0,0,0,n].getD i 0

/-- Two IPv6 peers are one flow, to 0.0.0.0. -/
theorem v6Peers_merged : (v6Sock 1).peer ≠ (v6Sock 2).peer ∧
    (unresolvedSend (v6Sock 1)).args.key = "0.0.0.0 -> 0.0.0.0:443" ∧
    (unresolvedSend (v6Sock 2)).args.key = "0.0.0.0 -> 0.0.0.0:443" ∧
    ¬ KeptApart (unresolvedSend (v6Sock 1)) (unresolvedSend (v6Sock 2)) := by
  have hkey : ∀ n, (unresolvedSend (v6Sock n)).args.key = "0.0.0.0 -> 0.0.0.0:443" := by
    intro n
    change flowKey (ipOfWord 0).toText (ipOfWord 0).toText (swapUint16 0xbb01) = _
    decide
  exact ⟨by decide,hkey 1,hkey 2,fun h => h.keys ((hkey 1).trans (hkey 2).symm)⟩

/-- A socket connected to port 443 of 10.0.0.n. -/
def v4Sock (n : UInt32) : TcpSock where
  common := ⟨0,(n <<< 24) ||| 0x0000000a,40000,0xbb01⟩
  skcFamily := .inet
  skcV6Daddr := fun _ => 0

theorem sends_kept_apart_iff_v4 :
    KeptApart (unresolvedSend (v4Sock 1)) (unresolvedSend (v4Sock 2)) :=
  (sends_kept_apart_iff (by decide) (unresolvedSend (v4Sock 1))
    (unresolvedSend (v4Sock 2))).1.mpr ⟨rfl,rfl⟩

end Demo
end Tracewulf.Ebpf
