import Tracewulf.Ebpf.FailedAppend
import Tracewulf.Json.Decoding

/-! The line of an interval record: what `json.Marshal` makes of one and `json.Unmarshal` of a
line of the history file. -/
namespace Tracewulf.Ebpf
open Tracewulf.Base Tracewulf.Json

section Codec

variable {κ : Type}

/-- How costs are written and read; NaN and the infinities are not written. -/
structure FloatCodec (κ : Type) where
  format : κ → Option Bytes
  parse : Bytes → Option κ

/-- What is relied on: a cost is written as a number with the digits it takes to read it back. -/
structure FloatCodec.Lawful (floats : FloatCodec κ) : Prop where
  number : ∀ x t, floats.format x = some t → IsNumber t
  parse : ∀ x t, floats.format x = some t → floats.parse t = some x
  short : ∀ x t, floats.format x = some t → t.length ≤ 32

/-- The fields of `IntervalRecord` under their tags. -/
def recordFields (floats : FloatCodec κ) : List (StructField (IntervalRecord κ)) :=
  [⟨"timestamp",storeString fun v r => { r with timestamp := v }⟩,
   ⟨"total_bytes",storeNumber parseUint fun n r => { r with totalBytes := UInt64.ofNat n }⟩,
   ⟨"cross_az_bytes",storeNumber parseUint fun n r => { r with crossAZBytes := UInt64.ofNat n }⟩,
   ⟨"total_cost_usd",storeNumber floats.parse fun c r => { r with totalCostUSD := c }⟩,
   ⟨"exec_events",storeNumber parseUint fun n r => { r with execEvents := UInt64.ofNat n }⟩,
   ⟨"unique_flows",storeNumber parseInt fun n r => { r with uniqueFlows := n }⟩]

/-- The members of a record as they are written. -/
def recordMembers (r : IntervalRecord κ) (cost : Bytes) : List (Bytes × Bytes) :=
  [(escaped "timestamp",appendString r.timestamp),
   (escaped "total_bytes",appendUint r.totalBytes.toNat),
   (escaped "cross_az_bytes",appendUint r.crossAZBytes.toNat),
   (escaped "total_cost_usd",cost),
   (escaped "exec_events",appendUint r.execEvents.toNat),
   (escaped "unique_flows",appendInt r.uniqueFlows)]

variable [CostNum κ]

def zeroRecord : IntervalRecord κ where
  timestamp := ""
  totalBytes := 0
  crossAZBytes := 0
  totalCostUSD := 0
  execEvents := 0
  uniqueFlows := 0

def jsonCodec (floats : FloatCodec κ) : Codec κ where
  marshal r := (floats.format r.totalCostUSD).map fun cost => structEncoder (recordMembers r cost)
  unmarshal := Json.unmarshal (recordFields floats) zeroRecord

end Codec

section RoundTrip

variable {κ : Type} [CostNum κ] {floats : FloatCodec κ} {r : IntervalRecord κ} {cost data : Bytes}

omit [CostNum κ] in
lemma plain_recordMembers (hcost : IsNumber cost) : ∀ m ∈ recordMembers r cost, Plain m := by
  have hname : ∀ name, InString (escaped name) := inString_escaped
  have huint : ∀ n, IsLiteral (appendUint n) := fun n => (isNumber_appendUint n).isLiteral
  intro m hm
  simp only [recordMembers, List.mem_cons, List.not_mem_nil, or_false] at hm
  rcases hm with rfl | rfl | rfl | rfl | rfl | rfl
  · exact ⟨hname _,isLiteral_appendString _⟩
  · exact ⟨hname _,huint _⟩
  · exact ⟨hname _,huint _⟩
  · exact ⟨hname _,hcost.isLiteral⟩
  · exact ⟨hname _,huint _⟩
  · exact ⟨hname _,(isNumber_appendInt _).isLiteral⟩

omit [CostNum κ] in
lemma nodup_recordFields (floats : FloatCodec κ) :
    ((recordFields floats).map fun f => foldName f.name).Nodup := by
  have hnames : (["timestamp","total_bytes","cross_az_bytes","total_cost_usd","exec_events",
    "unique_flows"].map foldName).Nodup := by decide
  exact hnames

lemma marshal_eq_some (h : (jsonCodec floats).marshal r = some data) :
    ∃ cost, floats.format r.totalCostUSD = some cost ∧
      data = structEncoder (recordMembers r cost) := by
  obtain ⟨cost,hcost,rfl⟩ := Option.map_eq_some_iff.mp h
  exact ⟨cost,hcost,rfl⟩

/-- A record is read back from its line. -/
theorem unmarshal_marshal (hf : floats.Lawful)
    (hflows : -2^63 ≤ r.uniqueFlows ∧ r.uniqueFlows < 2^63)
    (h : (jsonCodec floats).marshal r = some data) :
    (jsonCodec floats).unmarshal data = some r := by
  obtain ⟨cost,hcost,rfl⟩ := marshal_eq_some h
  have hnumber := hf.number _ _ hcost
  have huint : ∀ (n : UInt64) set (s : IntervalRecord κ),
      storeNumber parseUint set (.literal (appendUint n.toNat)) s = some (set n.toNat s) :=
    fun n set s => storeNumber_isNumber (isNumber_appendUint _)
      (parseUint_appendUint n.toNat_lt) s
  have hint : ∀ set (s : IntervalRecord κ),
      storeNumber parseInt set (.literal (appendInt r.uniqueFlows)) s =
        some (set r.uniqueFlows s) :=
    fun set s => storeNumber_isNumber (isNumber_appendInt _)
      (parseInt_appendInt hflows.1 hflows.2) s
  have hfloat : ∀ set (s : IntervalRecord κ),
      storeNumber floats.parse set (.literal cost) s = some (set r.totalCostUSD s) :=
    fun set s => storeNumber_isNumber hnumber (hf.parse _ _ hcost) s
  have hfields := nodup_recordFields floats
  -- the members in the order in which they are written
  have h₁ := fun v s => store_own hfields (List.Mem.head _) v s
  have h₂ := fun v s => store_own hfields (.tail _ (.head _)) v s
  have h₃ := fun v s => store_own hfields (.tail _ (.tail _ (.head _))) v s
  have h₄ := fun v s => store_own hfields (.tail _ (.tail _ (.tail _ (.head _)))) v s
  have h₅ := fun v s => store_own hfields (.tail _ (.tail _ (.tail _ (.tail _ (.head _))))) v s
  have h₆ := fun v s =>
    store_own hfields (.tail _ (.tail _ (.tail _ (.tail _ (.tail _ (.head _)))))) v s
  have hread : (jsonCodec floats).unmarshal (structEncoder (recordMembers r cost)) =
      ((recordMembers r cost).map fun m => (quoted m.1,Value.literal m.2)).foldlM
        (store (recordFields floats)) zeroRecord :=
    unmarshal_structEncoder (plain_recordMembers hnumber)
  rw [hread]
  simp only [recordMembers, List.map_cons, List.map_nil, List.foldlM_cons, List.foldlM_nil,
    Option.bind_eq_bind, Option.bind_some, h₁, h₂, h₃, h₄, h₅, h₆, storeString_appendString, huint,
    hint, hfloat, UInt64.ofNat_toNat]
  rfl

/-- The names, the punctuation and the numbers take less than 256 bytes. -/
lemma length_marshal (hf : floats.Lawful)
    (hflows : -2^63 ≤ r.uniqueFlows ∧ r.uniqueFlows < 2^63)
    (h : (jsonCodec floats).marshal r = some data) : data.length ≤ 6*r.timestamp.length + 256 := by
  obtain ⟨cost,hcost,rfl⟩ := marshal_eq_some h
  have htime := length_escaped r.timestamp
  have hshort := hf.short _ _ hcost
  have huint : ∀ n : UInt64, (appendUint n.toNat).length ≤ 20 := fun n =>
    length_appendUint n.toNat_lt
  have htotal := huint r.totalBytes
  have hcross := huint r.crossAZBytes
  have hexec := huint r.execEvents
  have hcount : (appendInt r.uniqueFlows).length ≤ 20 := length_appendInt hflows.1 hflows.2
  have hnames : (escaped "timestamp").length = 9 ∧ (escaped "total_bytes").length = 11 ∧
      (escaped "cross_az_bytes").length = 14 ∧ (escaped "total_cost_usd").length = 14 ∧
      (escaped "exec_events").length = 11 ∧ (escaped "unique_flows").length = 12 := by decide
  obtain ⟨h₁,h₂,h₃,h₄,h₅,h₆⟩ := hnames
  simp only [recordMembers, structEncoder, member, quoted, appendString, List.flatMap_cons,
    List.flatMap_nil, List.length_cons, List.length_append, List.length_nil, h₁, h₂, h₃, h₄, h₅, h₆]
  omega

/-- A record that `Record` can write and a later start read: its cost is a number, the number of
its flows fits an `int`, and its timestamp has at most 65536 characters. -/
structure Storable (floats : FloatCodec κ) (r : IntervalRecord κ) : Prop where
  cost : (floats.format r.totalCostUSD).isSome
  flows : -2^63 ≤ r.uniqueFlows ∧ r.uniqueFlows < 2^63
  timestamp : r.timestamp.length ≤ 2^16

theorem Storable.encodes (hf : floats.Lawful) (hr : Storable floats r)
    (h : (jsonCodec floats).marshal r = some data) : Encodes (jsonCodec floats) r data := by
  have hlen := length_marshal hf hr.flows h
  have htime := hr.timestamp
  have hread := unmarshal_marshal hf hr.flows h
  obtain ⟨cost,hcost,hdata⟩ := marshal_eq_some h
  constructor
  case marshal => exact h
  case unmarshal => exact hread
  case oneLine =>
    rw [hdata]
    exact newline_notMem_structEncoder (plain_recordMembers (hf.number _ _ hcost))
  case short =>
    have hroom : 6*2^16 + 256 < maxTokenSize := by decide
    omega
  case object => rw [hdata, getLast?_structEncoder]

lemma Storable.exists_encodes (hf : floats.Lawful) (hr : Storable floats r) :
    ∃ data, Encodes (jsonCodec floats) r data := by
  obtain ⟨cost,hcost⟩ := Option.isSome_iff_exists.mp hr.cost
  have hmarshal : (jsonCodec floats).marshal r = some (structEncoder (recordMembers r cost)) := by
    simp only [jsonCodec, hcost, Option.map_some]
  exact ⟨_,hr.encodes hf hmarshal⟩

end RoundTrip

section Lines

variable {κ : Type} [CostNum κ] {floats : FloatCodec κ} {r : IntervalRecord κ} {data t : Bytes}

lemma foreign_t : Foreign 116 := ⟨rfl,by decide,by decide,by decide,by decide⟩

lemma exists_timestamp : ∃ name, escaped "timestamp" = 116::name := by
  have hhead : (escaped "timestamp").head? = some 116 := by decide
  exact ⟨_,(List.cons_head?_tail (Option.mem_def.mpr hhead)).symm⟩

/-- Blanks before a record's line change nothing; after anything else it does not parse. -/
theorem unmarshal_append (hf : floats.Lawful) (h : (jsonCodec floats).marshal r = some data)
    (t : Bytes) : (jsonCodec floats).unmarshal (t ++ data) =
      if t.all isSpace then (jsonCodec floats).unmarshal data else none := by
  obtain ⟨cost,hcost,rfl⟩ := marshal_eq_some h
  obtain ⟨name,hname⟩ := exists_timestamp
  have hplain := plain_recordMembers (r := r) (hf.number _ _ hcost)
  have hchecked := checkValid_append_structEncoder hplain hname foreign_t t
  have halone := checkValid_structEncoder hplain
  have hread : ∀ text, (jsonCodec floats).unmarshal text =
      (checkValid text).bind (decode (recordFields floats) zeroRecord) := fun _ => rfl
  rw [hread, hread]
  unfold recordMembers at *
  rw [hchecked, halone]
  split_ifs <;> rfl

/-- A part of a record's line does not parse. -/
theorem unmarshal_take (hf : floats.Lawful) (h : (jsonCodec floats).marshal r = some data) {n : ℕ}
    (hn : n < data.length) : (jsonCodec floats).unmarshal (data.take n) = none := by
  obtain ⟨cost,hcost,rfl⟩ := marshal_eq_some h
  have hplain := plain_recordMembers (r := r) (hf.number _ _ hcost)
  have hpart : checkValid ((structEncoder (recordMembers r cost)).take n) = none := by
    unfold recordMembers at *
    exact checkValid_take_structEncoder hplain hn
  have hread : (jsonCodec floats).unmarshal ((structEncoder (recordMembers r cost)).take n) =
      (checkValid _).bind (decode (recordFields floats) zeroRecord) := rfl
  rw [hread, hpart, Option.bind_none]

lemma all_isSpace_of_blank (h : Blank t) : t.all isSpace = true := by
  refine List.all_eq_true.mpr fun b hb => ?_
  rcases h b hb with rfl | rfl | rfl <;> rfl

lemma blank_of_all_isSpace (hfree : newline ∉ t) (h : t.all isSpace = true) : Blank t := by
  intro b hb
  have hspace := List.all_eq_true.mp h b hb
  simp only [isSpace, Bool.or_eq_true, decide_eq_true_eq] at hspace
  rcases hspace with ((hb' | hb') | hb') | hb'
  · exact .inl hb'
  · exact .inr (.inl hb')
  · exact .inr (.inr hb')
  · subst hb'
    exact absurd hb hfree

/-- What the results about torn and failed appends rely on holds of JSON. -/
theorem lineWise_jsonCodec (hf : floats.Lawful) : (jsonCodec floats).LineWise where
  blank t r data ht he := by
    rw [unmarshal_append hf he.marshal, if_pos (all_isSpace_of_blank ht), he.unmarshal]
  foreign t r data ht hfree he := by
    rw [unmarshal_append hf he.marshal, if_neg fun h => ht (blank_of_all_isSpace hfree h)]
  empty t ht := by
    have hnone := checkValid_spaces (all_isSpace_of_blank ht)
    have hread : (jsonCodec floats).unmarshal t =
        (checkValid t).bind (decode (recordFields floats) zeroRecord) := rfl
    rw [hread, hnone, Option.bind_none]
  object r data he := by
    obtain ⟨cost,-,rfl⟩ := marshal_eq_some he.marshal
    exact head?_structEncoder _

theorem oneValue_jsonCodec (hf : floats.Lawful) : (jsonCodec floats).OneValue := by
  intro r r' data data' he he' n hpos hn
  obtain ⟨cost,-,rfl⟩ := marshal_eq_some he.marshal
  rw [unmarshal_append hf he'.marshal, if_neg]
  obtain ⟨m,rfl⟩ := Nat.exists_eq_succ_of_ne_zero hpos.ne'
  simp [recordMembers, structEncoder, isSpace]

/-- What is read of a line that a record's line is a part of, or that is a part of it. -/
theorem record_line_framed (hf : floats.Lawful) (hr : Storable floats r)
    (h : (jsonCodec floats).marshal r = some data) :
    Encodes (jsonCodec floats) r data ∧
    (∀ n < data.length, (jsonCodec floats).unmarshal (data.take n) = none) ∧
    ∀ t, newline ∉ t →
      (jsonCodec floats).unmarshal (t ++ data) = if Blank t then some r else none := by
  have he := hr.encodes hf h
  refine ⟨he,fun n hn => unmarshal_take hf h hn,fun t hfree => ?_⟩
  split_ifs with ht
  · exact (lineWise_jsonCodec hf).blank t r data ht he
  · exact (lineWise_jsonCodec hf).foreign t r data ht hfree he

end Lines

section Demo

/-- Costs of whole dollars, which are written as their digits. -/
def wholeFloats : FloatCodec Rat where
  format x := if 0 ≤ x.num ∧ x.den = 1 ∧ x.num < 2^53 then some (appendUint x.num.toNat) else none
  parse text := (digits text).map fun n : ℕ => (n : Rat)

lemma wholeFloats_lawful : wholeFloats.Lawful := by
  have hwhole : ∀ x t, wholeFloats.format x = some t →
      ((0 ≤ x.num ∧ x.den = 1) ∧ x.num < 2^53) ∧ t = appendUint x.num.toNat := by
    intro x t h
    simp only [wholeFloats] at h
    split_ifs at h with hx
    cases h
    exact ⟨⟨⟨hx.1,hx.2.1⟩,hx.2.2⟩,rfl⟩
  constructor
  case number =>
    intro x t h
    obtain ⟨-,rfl⟩ := hwhole x t h
    exact isNumber_appendUint _
  case parse =>
    intro x t h
    obtain ⟨⟨⟨hpos,hden⟩,-⟩,rfl⟩ := hwhole x t h
    have hcast : ((x.num.toNat : ℕ) : Rat) = x :=
      calc ((x.num.toNat : ℕ) : Rat) = ((x.num.toNat : ℤ) : Rat) := (Rat.intCast_natCast _).symm
        _ = x.num := by rw [Int.toNat_of_nonneg hpos]
        _ = x := Rat.coe_int_num_of_den_eq_one hden
    simp only [wholeFloats, digits_appendUint, Option.map_some, hcast]
  case short =>
    intro x t h
    obtain ⟨⟨-,hlt⟩,rfl⟩ := hwhole x t h
    exact (length_appendUint (by omega)).trans (by decide)

lemma storable_morning : Storable wholeFloats morning.toRecord where
  cost := by decide
  flows := by decide
  timestamp := by decide

theorem record_line_framed_morning : ∃ data,
    Encodes (jsonCodec wholeFloats) morning.toRecord data ∧
    (∀ n < data.length, (jsonCodec wholeFloats).unmarshal (data.take n) = none) ∧
    ∀ t, newline ∉ t → (jsonCodec wholeFloats).unmarshal (t ++ data) =
      if Blank t then some morning.toRecord else none := by
  obtain ⟨data,hdata⟩ := storable_morning.exists_encodes wholeFloats_lawful
  exact ⟨data,record_line_framed wholeFloats_lawful storable_morning hdata.marshal⟩

end Demo
end Tracewulf.Ebpf
