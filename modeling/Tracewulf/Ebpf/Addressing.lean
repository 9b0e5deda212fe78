import Tracewulf.Base.BigEndian
import Tracewulf.Base.Decimal
import Tracewulf.Bpf.Tracer
import Tracewulf.Ebpf.FlowKey

/-! Addresses and ports from the kernel's words to the text in a flow key, and from that text to
the class of the flow. The text of an address is read back as that address, and a block holds the
addresses of one interval. -/
namespace Tracewulf.Ebpf
open Tracewulf.Base Tracewulf.Bpf

section Text

lemma decimal_toString (n : ℕ) : decimal (toString n).toList = some n := by
  have hdigits : (toString n).toList.all isDigit = true := by
    rw [List.all_eq_true]
    intro x hx
    have hx := isDigit_of_mem_toString hx
    simpa [Char.isDigit, isDigit, Char.le_def] using hx
  have hlist : (toString n).toList = Nat.toDigits 10 n := by
    rw [Nat.toString_eq_repr, Nat.toList_repr]
  have hne : (toString n).toList ≠ [] := by
    rw [hlist]
    exact Nat.toDigits_ne_nil
  rw [decimal, if_pos ⟨hne,hdigits⟩, hlist]
  exact congrArg some Nat.ofDigitChars_ten_toDigits

lemma parseOctet_toString (b : UInt8) : parseOctet (toString b.toNat).toList = some b := by
  have hlt : b.toNat < 256 := b.toNat_lt
  have hcanon : ¬ ((1 < (toString b.toNat).toList.length ∧
      (toString b.toNat).toList.head? = some '0') ∨ 255 < b.toNat) := by
    rintro (⟨hlong,hhead⟩ | hbig)
    · rw [Nat.toString_eq_repr, Nat.toList_repr] at hlong hhead
      rcases Nat.eq_zero_or_pos b.toNat with hzero | hpos
      · rw [hzero] at hlong
        exact absurd hlong (by decide)
      · exact head?_toDigits_ne hpos hhead
    · omega
  rw [parseOctet, decimal_toString, Option.bind_eq_bind, Option.bind_some, if_neg hcanon,
    UInt8.ofNat_toNat]

/-- What is written of an address is read as that address. -/
theorem parseIP_toText (ip : IPv4) : parseIP ip.toText = some ip := by
  have hdot : ∀ b : UInt8, '.' ∉ (toString b.toNat).toList :=
    fun b => notMem_toString b.toNat (by decide)
  have hsplit : splitAt '.' ip.toText = [(toString ip.a.toNat).toList,
      (toString ip.b.toNat).toList,(toString ip.c.toNat).toList,(toString ip.d.toNat).toList] := by
    rw [splitAt, IPv4.toList_toText, Lines.cut_line (hdot _), Lines.cut_line (hdot _),
      Lines.cut_line (hdot _), Lines.cut_free (hdot _)]
    rfl
  rw [parseIP, hsplit]
  simp only [parseOctet_toString, Option.bind_eq_bind, Option.bind_some, Option.pure_def]

end Text

section Blocks

/-- The address as a 32-bit number. -/
def IPv4.number (ip : IPv4) : ℕ := BigEndian.decode ip.bytes

/-- Under a mask of `n` ones, byte strings agree when their numbers agree above the other bits. -/
lemma zipWith_cidrMask_eq_iff {n len : ℕ} {xs ys : Bytes} (hx : xs.length = len)
    (hy : ys.length = len) (hn : n ≤ 8*len) :
    List.zipWith (· &&& ·) xs (cidrMask n len) = List.zipWith (· &&& ·) ys (cidrMask n len) ↔
      BigEndian.decode xs/2^(8*len-n) = BigEndian.decode ys/2^(8*len-n) := by
  induction len generalizing n xs ys with
  | zero =>
    obtain rfl := List.length_eq_zero_iff.mp hx
    obtain rfl := List.length_eq_zero_iff.mp hy
    simp
  | succ len ih =>
    obtain ⟨x,xs,rfl⟩ := List.exists_cons_of_length_eq_add_one hx
    obtain ⟨y,ys,rfl⟩ := List.exists_cons_of_length_eq_add_one hy
    have hx : xs.length = len := by simpa using hx
    have hy : ys.length = len := by simpa using hy
    rw [cidrMask]
    split_ifs with h8
    · have hexp : 8*(len+1)-n = 8*len-(n-8) := by omega
      have hones : ∀ b : UInt8, b &&& 0xff = b := fun b => (UInt8.and_neg_one : b &&& -1 = b)
      simp only [List.zipWith_cons_cons, List.cons.injEq, hones]
      rw [ih hx hy (by omega), hexp,
        BigEndian.decode_cons_div_eq_iff (hx.trans hy.symm) (by omega)]
    · have hexp : 8*(len+1)-n = 8*xs.length+(8-n) := by omega
      have hrest : List.zipWith (· &&& ·) xs (cidrMask 0 len) =
          List.zipWith (· &&& ·) ys (cidrMask 0 len) := by
        have hpow : 2^(8*len-0) = 256^len := by rw [Nat.sub_zero, pow_mul]; rfl
        rw [ih hx hy (Nat.zero_le _), hpow, Nat.div_eq_of_lt (hx ▸ BigEndian.decode_lt xs),
          Nat.div_eq_of_lt (hy ▸ BigEndian.decode_lt ys)]
      simp only [List.zipWith_cons_cons, List.cons.injEq, hrest, and_true]
      rw [BigEndian.and_highBits_eq_iff x y (by omega), hexp, BigEndian.decode_cons_div,
        hx.trans hy.symm, BigEndian.decode_cons_div]

/-- A block with its mask holds the addresses that share its leading ones. -/
lemma contains_iff {block : Bytes} (hb : block.length = 4) {n : ℕ} (hn : n ≤ 32) (ip : IPv4) :
    (IPNet.mk block (cidrMask n 4)).contains ip ↔
      BigEndian.decode block/2^(32-n) = ip.number/2^(32-n) := by
  have hip : ip.bytes.length = 4 := rfl
  rw [IPNet.contains, decide_eq_true_iff, hb, hip,
    zipWith_cidrMask_eq_iff hb hip (show n ≤ 8*4 by omega)]
  exact and_iff_right rfl

lemma privateBlocks_eq : privateBlocks = [⟨[10,0,0,0],cidrMask 8 4⟩,⟨[172,16,0,0],cidrMask 12 4⟩,
    ⟨[192,168,0,0],cidrMask 16 4⟩,⟨[127,0,0,0],cidrMask 8 4⟩] := by decide

/-- The number lies in 10/8, 172.16/12, 192.168/16 or 127/8, between the block's first address
and its last. -/
def InPrivateBlock (n : ℕ) : Prop :=
  (0x0a000000 ≤ n ∧ n ≤ 0x0affffff) ∨ (0xac100000 ≤ n ∧ n ≤ 0xac1fffff) ∨
    (0xc0a80000 ≤ n ∧ n ≤ 0xc0a8ffff) ∨ (0x7f000000 ≤ n ∧ n ≤ 0x7fffffff)

instance (n : ℕ) : Decidable (InPrivateBlock n) := inferInstanceAs (Decidable (_ ∨ _))

/-- The class of an address is read off its number. -/
theorem classify_toText (ip : IPv4) :
    classify ip.toText = if InPrivateBlock ip.number then "internal" else "external" := by
  have hany : (privateBlocks.any fun block => block.contains ip) = true ↔
      InPrivateBlock ip.number := by
    simp only [privateBlocks_eq, List.any_cons, List.any_nil, Bool.or_false, Bool.or_eq_true]
    rw [contains_iff rfl (by omega), contains_iff rfl (by omega), contains_iff rfl (by omega),
      contains_iff rfl (by omega)]
    have h10 : BigEndian.decode [10,0,0,0] = 0x0a000000 := rfl
    have h172 : BigEndian.decode [172,16,0,0] = 0xac100000 := rfl
    have h192 : BigEndian.decode [192,168,0,0] = 0xc0a80000 := rfl
    have h127 : BigEndian.decode [127,0,0,0] = 0x7f000000 := rfl
    rw [h10, h172, h192, h127, InPrivateBlock]
    omega
  rw [classify, parseIP_toText]
  by_cases hin : InPrivateBlock ip.number
  · simp only [hany.mpr hin, if_pos hin, if_true]
  · have hout : ¬ (privateBlocks.any fun block => block.contains ip) = true := mt hany.mp hin
    simp only [if_neg hout, if_neg hin]

end Blocks

section Words

lemma encode_ipOfWord (w : UInt32) : LittleEndian.encode 4 w.toNat = (ipOfWord w).bytes := by
  have hw : w.toNat < 2^32 := w.toNat_lt
  simp only [LittleEndian.encode, IPv4.bytes, ipOfWord, List.cons.injEq, and_true,
    ← UInt8.toNat_inj]
  simp [Nat.shiftRight_eq_div_pow]
  omega

/-- Swapping the two bytes of a port turns one byte order into the other. -/
lemma encode_swapUint16 (v : UInt16) :
    LittleEndian.encode 2 (swapUint16 v).toNat = BigEndian.encode 2 v.toNat := by
  have hv : v.toNat < 2^16 := v.toNat_lt
  have hswap : (swapUint16 v).toNat = v.toNat/256 + 2^8*(v.toNat%256) := by
    have hhigh : v.toNat/256 < 2^8 := by omega
    have hshift : v.toNat*256%65536 = 2^8*(v.toNat%256) := by omega
    rw [swapUint16, UInt16.toNat_or, UInt16.toNat_shiftRight, UInt16.toNat_shiftLeft]
    simp [Nat.shiftRight_eq_div_pow, Nat.shiftLeft_eq, hshift]
    rw [Nat.or_comm, ← Nat.two_pow_add_eq_or_of_lt hhigh, Nat.add_comm]
  have hlow : (v.toNat/256 + 2^8*(v.toNat%256))/256 = v.toNat%256 := by
    have hsplit := Nat.add_mul_div_left (v.toNat/256) (v.toNat%256) (show 0 < 256 by decide)
    have hzero : v.toNat/256/256 = 0 := by omega
    rw [hzero, Nat.zero_add] at hsplit
    exact hsplit
  simp only [LittleEndian.encode, BigEndian.encode, hswap, hlow, List.reverse_cons,
    List.reverse_nil, List.nil_append, List.cons_append, List.cons.injEq, and_true,
    ← UInt8.toNat_inj, UInt8.toNat_ofNat']
  omega

/-- A socket's peer as the kernel stores it: address and port in network byte order, in the words
of a little-endian machine. -/
structure StoresPeer (s : SockCommon) (ip : IPv4) (port : UInt16) : Prop where
  skcDaddr : LittleEndian.encode 4 s.skcDaddr.toNat = ip.bytes
  skcDport : LittleEndian.encode 2 s.skcDport.toNat = BigEndian.encode 2 port.toNat

variable {s : SockCommon} {ip : IPv4} {port : UInt16}

lemma IPv4.bytes_injective {ip ip' : IPv4} (h : ip.bytes = ip'.bytes) : ip = ip' := by
  simp only [IPv4.bytes, List.cons.injEq, and_true] at h
  obtain ⟨ha,hb,hc,hd⟩ := h
  calc ip = ⟨ip.a,ip.b,ip.c,ip.d⟩ := rfl
    _ = ⟨ip'.a,ip'.b,ip'.c,ip'.d⟩ := by rw [ha, hb, hc, hd]
    _ = ip' := rfl

lemma StoresPeer.ipOfWord_eq (h : StoresPeer s ip port) : ipOfWord s.skcDaddr = ip := by
  apply IPv4.bytes_injective
  rw [← encode_ipOfWord, h.skcDaddr]

lemma StoresPeer.swapUint16_eq (h : StoresPeer s ip port) : swapUint16 s.skcDport = port := by
  have hbytes : LittleEndian.encode 2 (swapUint16 s.skcDport).toNat =
      LittleEndian.encode 2 port.toNat := by
    rw [encode_swapUint16, BigEndian.encode, h.skcDport, BigEndian.encode, List.reverse_reverse]
  calc swapUint16 s.skcDport
      = .ofNat (LittleEndian.decode (LittleEndian.encode 2 (swapUint16 s.skcDport).toNat)) :=
        (LittleEndian.decode_uint16 _).symm
    _ = .ofNat (LittleEndian.decode (LittleEndian.encode 2 port.toNat)) := by rw [hbytes]
    _ = port := LittleEndian.decode_uint16 port

end Words

section Records

/-- The lookups for a flow between two addresses, and the call made of what they answer. -/
def resolveFlow (src dst : String) (port : UInt16) (cls : String) (call : FlowArgs → Call) :
    Lookups (Option (Time → Call)) := do
  let srcName ← resolveName src
  let dstName ← resolveName dst
  let srcZone ← resolveZone src
  let dstZone ← resolveZone dst
  return some fun now => call ⟨srcName,dstName,port,cls,srcZone,dstZone,now⟩

variable {e : Event} {mem : Bytes}

lemma binaryRead_mem (h : e.LaidOut mem) : binaryRead mem = some (ringbufEvent e) := by
  simpa using binaryRead_laidOut e mem [] h

lemma handleRecord_send (h : e.LaidOut mem) (ht : e.type = EventType.send) :
    handleRecord mem = resolveFlow (ipOfWord e.srcIp).toText (ipOfWord e.dstIp).toText
      (swapUint16 e.dstPort) (classify (ipOfWord e.dstIp).toText) (Call.recordBytes · e.bytes) := by
  have htype : (ringbufEvent e).type = eventSend := ht
  have hother : eventSend ≠ eventExec ∧ eventSend ≠ eventRecv ∧ eventSend ≠ eventConnect := by
    decide
  simp only [handleRecord, binaryRead_mem h, htype, if_neg hother.1, if_neg hother.2.1,
    if_neg hother.2.2, if_true]
  rfl

lemma handleRecord_connect (h : e.LaidOut mem) (ht : e.type = EventType.connect) :
    handleRecord mem = resolveFlow (ipOfWord e.srcIp).toText (ipOfWord e.dstIp).toText
      (swapUint16 e.dstPort) (classify (ipOfWord e.dstIp).toText) Call.recordTCP := by
  have htype : (ringbufEvent e).type = eventConnect := ht
  have hother : eventConnect ≠ eventExec ∧ eventConnect ≠ eventRecv := by decide
  simp only [handleRecord, binaryRead_mem h, htype, if_neg hother.1, if_neg hother.2, if_true]
  rfl

variable {ctx : Ctx} {sk : Sock} {ip : IPv4} {port : UInt16}

/-- For every peer: its record is resolved and recorded under the address's own text, the port,
and the class its number has; the text is that of no other address, and is read back. -/
theorem peer_decoding_exact (h : StoresPeer (ctx.sockCommon sk) ip port) :
    (∀ size mem, (sockEvent ctx sk size EventType.send).LaidOut mem →
      handleRecord mem = resolveFlow (ipOfWord (ctx.sockCommon sk).skcRcvSaddr).toText ip.toText
        port (if InPrivateBlock ip.number then "internal" else "external")
        (Call.recordBytes · size)) ∧
    (∀ mem, (sockEvent ctx sk 0 EventType.connect).LaidOut mem →
      handleRecord mem = resolveFlow (ipOfWord (ctx.sockCommon sk).skcRcvSaddr).toText ip.toText
        port (if InPrivateBlock ip.number then "internal" else "external") Call.recordTCP) ∧
    classify ip.toText = (if InPrivateBlock ip.number then "internal" else "external") ∧
    parseIP ip.toText = some ip ∧ ∀ ip' : IPv4, ip'.toText = ip.toText → ip' = ip := by
  have haddr : ∀ size type, ipOfWord (sockEvent ctx sk size type).dstIp = ip :=
    fun _ _ => h.ipOfWord_eq
  have hport : ∀ size type, swapUint16 (sockEvent ctx sk size type).dstPort = port :=
    fun _ _ => h.swapUint16_eq
  refine ⟨?_,?_,classify_toText ip,parseIP_toText ip,fun ip' => IPv4.toText_injective⟩
  · intro size mem hmem
    rw [handleRecord_send hmem rfl, haddr, hport, classify_toText]
    rfl
  · intro mem hmem
    rw [handleRecord_connect hmem rfl, haddr, hport, classify_toText]
    rfl

/-- A pod at 10.0.0.5 with a peer at the upper edge of 172.16/12, port 443. -/
def edgeCtx : Ctx where
  pidTgid := 1
  comm := fun _ => 0
  sockCommon _ := ⟨0x0500000a,0x0aff1fac,40000,0xbb01⟩
  reserved := true

/-- The record of a send of a hundred bytes to that peer. -/
def edgeRecord : Bytes :=
  (sockEvent edgeCtx 7 100 EventType.send).fields.flatten ++ List.replicate 7 0

theorem peer_decoding_exact_edge :
    StoresPeer (edgeCtx.sockCommon 7) ⟨172,31,255,10⟩ 443 ∧
      handleRecord edgeRecord =
        resolveFlow "10.0.0.5" "172.31.255.10" 443 "internal" (Call.recordBytes · 100) := by
  have hpeer : StoresPeer (edgeCtx.sockCommon 7) ⟨172,31,255,10⟩ 443 := ⟨by decide,by decide⟩
  have hsrc : (ipOfWord (edgeCtx.sockCommon 7).skcRcvSaddr).toText = "10.0.0.5" := by decide
  have hdst : (IPv4.mk 172 31 255 10).toText = "172.31.255.10" := by decide
  have hcls : (if InPrivateBlock (IPv4.mk 172 31 255 10).number then "internal"
      else "external") = "internal" := by decide
  have hrecord := (peer_decoding_exact hpeer).1 100 edgeRecord (laidOut_flatten _ rfl)
  rw [hsrc, hdst, hcls] at hrecord
  exact ⟨hpeer,hrecord⟩

end Records
end Tracewulf.Ebpf
