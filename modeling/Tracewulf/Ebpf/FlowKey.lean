import Tracewulf.Base.Split
import Tracewulf.Ebpf.Resolution

/-! Flow keys as text. An endpoint's name says what kind of endpoint it is before anything else, a
namespace ends at its slash, a source name at the first blank and a destination name at the last
colon; so a key is read back in one way only. -/
namespace Tracewulf.Ebpf
open Tracewulf.Base Tracewulf.K8s

/-- What an address is resolved to. -/
inductive Identity
  | pod (ns name : String)
  | service (ns name : String)
  | address (ip : IPv4)
  deriving DecidableEq

/-- The identity the cache gives an address: a pod before a service. -/
def identify (c : Cache) (ip : IPv4) : Identity :=
  match c.lookupPod ip.toText with
  | some info => .pod info.ns info.name
  | none =>
    match c.lookupService ip.toText with
    | some info => .service info.ns info.name
    | none => .address ip

def Identity.text : Identity → String
  | pod ns name => "pod:" ++ ns ++ "/" ++ name
  | service ns name => "svc:" ++ ns ++ "/" ++ name
  | address ip => ip.toText

lemma resolveNameAt_text (c : Cache) (ip : IPv4) :
    resolveNameAt c ip.toText = (identify c ip).text := by
  rw [resolveNameAt_eq, identify]
  cases c.lookupPod ip.toText with
  | some info => rfl
  | none => cases c.lookupService ip.toText <;> rfl

/-- No name or namespace in the cache has a space in it, and no namespace a slash. -/
structure PlainNames (c : Cache) : Prop where
  pod : ∀ ip info, c.lookupPod ip = some info →
    ' ' ∉ info.name.toList ∧ ' ' ∉ info.ns.toList ∧ '/' ∉ info.ns.toList
  service : ∀ ip info, c.lookupService ip = some info →
    ' ' ∉ info.name.toList ∧ ' ' ∉ info.ns.toList ∧ '/' ∉ info.ns.toList

def Identity.Plain : Identity → Prop
  | pod ns name | service ns name =>
    ' ' ∉ name.toList ∧ ' ' ∉ ns.toList ∧ '/' ∉ ns.toList
  | address _ => True

lemma PlainNames.identify {c : Cache} (hc : PlainNames c) (ip : IPv4) :
    (identify c ip).Plain := by
  unfold Ebpf.identify
  cases hpod : c.lookupPod ip.toText with
  | some info => exact hc.pod _ _ hpod
  | none =>
    cases hsvc : c.lookupService ip.toText with
    | some info => exact hc.service _ _ hsvc
    | none => trivial

section Digits

/-- A number's text is made of digits. -/
lemma isDigit_of_mem_toString {n : ℕ} {x : Char} (hx : x ∈ (toString n).toList) : x.isDigit := by
  rw [Nat.toString_eq_repr, Nat.toList_repr] at hx
  exact Nat.isDigit_of_mem_toDigits (by decide) (by decide) hx

lemma notMem_toString (n : ℕ) {x : Char} (hx : ¬ x.isDigit) : x ∉ (toString n).toList :=
  fun hmem => hx (isDigit_of_mem_toString hmem)

lemma toString_injective {m n : ℕ} (h : (toString m).toList = (toString n).toList) : m = n := by
  rw [Nat.toString_eq_repr, Nat.toString_eq_repr, Nat.toList_repr, Nat.toList_repr] at h
  calc m = Nat.ofDigitChars 10 (Nat.toDigits 10 m) 0 := Nat.ofDigitChars_ten_toDigits.symm
    _ = Nat.ofDigitChars 10 (Nat.toDigits 10 n) 0 := by rw [h]
    _ = n := Nat.ofDigitChars_ten_toDigits

lemma IPv4.toList_toText (ip : IPv4) : ip.toText.toList =
    (toString ip.a.toNat).toList ++ '.'::((toString ip.b.toNat).toList ++
      '.'::((toString ip.c.toNat).toList ++ '.'::(toString ip.d.toNat).toList)) := by
  simp [IPv4.toText]

/-- Different addresses are written differently. -/
lemma IPv4.toText_injective {ip ip' : IPv4} (h : ip.toText = ip'.toText) : ip = ip' := by
  have hlist := congrArg String.toList h
  rw [toList_toText, toList_toText] at hlist
  have hdot : ∀ n : ℕ, '.' ∉ (toString n).toList := fun n => notMem_toString n (by decide)
  obtain ⟨ha,hlist⟩ := (Split.cons_inj_left (hdot _) (hdot _)).mp hlist
  obtain ⟨hb,hlist⟩ := (Split.cons_inj_left (hdot _) (hdot _)).mp hlist
  obtain ⟨hc,hd⟩ := (Split.cons_inj_left (hdot _) (hdot _)).mp hlist
  have hbyte : ∀ {x y : UInt8}, (toString x.toNat).toList = (toString y.toNat).toList → x = y :=
    fun h => UInt8.toNat_inj.mp (toString_injective h)
  calc ip = ⟨ip.a,ip.b,ip.c,ip.d⟩ := rfl
    _ = ⟨ip'.a,ip'.b,ip'.c,ip'.d⟩ := by rw [hbyte ha, hbyte hb, hbyte hc, hbyte hd]
    _ = ip' := rfl

lemma IPv4.notMem_toText (ip : IPv4) {x : Char} (hx : ¬ x.isDigit) (hdot : x ≠ '.') :
    x ∉ ip.toText.toList := by
  rw [toList_toText]
  simp only [List.mem_append, List.mem_cons, not_or]
  exact ⟨notMem_toString _ hx,hdot,notMem_toString _ hx,hdot,notMem_toString _ hx,hdot,
    notMem_toString _ hx⟩

end Digits

section Names

variable {i j : Identity}

lemma Identity.space_notMem_text (h : i.Plain) : ' ' ∉ i.text.toList := by
  cases i with
  | pod ns name =>
    obtain ⟨hname,hns,-⟩ := h
    simp [Identity.text, hname, hns]
  | service ns name =>
    obtain ⟨hname,hns,-⟩ := h
    simp [Identity.text, hname, hns]
  | address ip => exact ip.notMem_toText (by decide) (by decide)

/-- The name of a pod or a service, its kind apart, is namespace and name joined at a slash. -/
lemma join_inj {ns name ns' name' : String} (h : '/' ∉ ns.toList) (h' : '/' ∉ ns'.toList)
    (heq : ns.toList ++ '/'::name.toList = ns'.toList ++ '/'::name'.toList) :
    ns = ns' ∧ name = name' := by
  obtain ⟨hns,hname⟩ := (Split.cons_inj_left h h').mp heq
  exact ⟨String.toList_injective hns,String.toList_injective hname⟩

lemma Identity.toList_text (i : Identity) : i.text.toList = match i with
    | pod ns name => 'p' :: 'o' :: 'd' :: ':' :: (ns.toList ++ '/'::name.toList)
    | service ns name => 's' :: 'v' :: 'c' :: ':' :: (ns.toList ++ '/'::name.toList)
    | address ip => ip.toText.toList := by
  cases i <;> simp [Identity.text]

/-- An endpoint is read back from its name. -/
theorem Identity.text_injective (hi : i.Plain) (hj : j.Plain) (h : i.text = j.text) : i = j := by
  have hlist := congrArg String.toList h
  rw [toList_text, toList_text] at hlist
  have hkind : ∀ {ip : IPv4} {x : Char} {t : List Char}, ¬ x.isDigit → x ≠ '.' →
      ip.toText.toList ≠ x::t := by
    intro ip x t hx hdot heq
    exact ip.notMem_toText hx hdot (heq ▸ List.mem_cons_self)
  cases i with
  | pod ns name =>
    cases j with
    | pod ns' name' =>
      simp only [List.cons.injEq, true_and] at hlist
      obtain ⟨rfl,rfl⟩ := join_inj hi.2.2 hj.2.2 hlist
      rfl
    | service ns' name' => simp at hlist
    | address ip' => exact absurd hlist.symm (hkind (by decide) (by decide))
  | service ns name =>
    cases j with
    | pod ns' name' => simp at hlist
    | service ns' name' =>
      simp only [List.cons.injEq, true_and] at hlist
      obtain ⟨rfl,rfl⟩ := join_inj hi.2.2 hj.2.2 hlist
      rfl
    | address ip' => exact absurd hlist.symm (hkind (by decide) (by decide))
  | address ip =>
    cases j with
    | pod ns' name' => exact absurd hlist (hkind (by decide) (by decide))
    | service ns' name' => exact absurd hlist (hkind (by decide) (by decide))
    | address ip' => rw [IPv4.toText_injective (String.toList_injective hlist)]

end Names

section Keys

variable {srcName dstName srcName' dstName' : String} {port port' : UInt16}

lemma toList_flowKey (srcName dstName : String) (port : UInt16) :
    (flowKey srcName dstName port).toList =
      (srcName.toList ++ ' ' :: '-' :: '>' :: ' ' :: dstName.toList) ++
        ':'::(toString port.toNat).toList := by
  simp [flowKey]

/-- A port has no colon in it, so a key determines its port and the rest, whatever the names. -/
lemma flowKey_eq_iff : flowKey srcName dstName port = flowKey srcName' dstName' port' ↔
    port = port' ∧ srcName.toList ++ ' ' :: '-' :: '>' :: ' ' :: dstName.toList =
      srcName'.toList ++ ' ' :: '-' :: '>' :: ' ' :: dstName'.toList := by
  have hcolon : ∀ n : ℕ, ':' ∉ (toString n).toList := fun n => notMem_toString n (by decide)
  have hport : (toString port.toNat).toList = (toString port'.toNat).toList ↔ port = port' := by
    constructor
    · exact fun h => UInt16.toNat_inj.mp (toString_injective h)
    · rintro rfl
      rfl
  rw [← String.toList_inj, toList_flowKey, toList_flowKey,
    Split.cons_inj_right (hcolon _) (hcolon _), hport, and_comm]

/-- Where source names have no space in them, a key determines its three parts. -/
theorem flowKey_inj (h : ' ' ∉ srcName.toList) (h' : ' ' ∉ srcName'.toList) :
    flowKey srcName dstName port = flowKey srcName' dstName' port' ↔
      port = port' ∧ srcName = srcName' ∧ dstName = dstName' := by
  rw [flowKey_eq_iff, Split.cons_inj_left h h']
  simp only [List.cons.injEq, true_and, String.toList_inj]

/-- The same where destination names have no space in them. -/
theorem flowKey_inj_of_dst (h : ' ' ∉ dstName.toList) (h' : ' ' ∉ dstName'.toList) :
    flowKey srcName dstName port = flowKey srcName' dstName' port' ↔
      port = port' ∧ srcName = srcName' ∧ dstName = dstName' := by
  have harrow : ∀ src dst : String, src.toList ++ ' ' :: '-' :: '>' :: ' ' :: dst.toList =
      (src.toList ++ [' ','-','>']) ++ ' ' :: dst.toList := fun src dst => by simp
  rw [flowKey_eq_iff, harrow, harrow, Split.cons_inj_right h h', List.append_cancel_right_eq]
  simp only [String.toList_inj]

/-- `text.split(sep)` of the dashboard's script, for a separator that is not empty. -/
def split (text sep : String) : List String :=
  (Split.parts sep.toList 0 text.toList).map String.ofList

example : split "a -> b -> c" " -> " = ["a","b","c"] := by decide +kernel

/-- Where neither name has a space in it, the dashboard takes a key apart where it was joined. -/
theorem split_flowKey (h : ' ' ∉ srcName.toList) (h' : ' ' ∉ dstName.toList) :
    split (flowKey srcName dstName port) " -> " =
      [srcName,dstName ++ ":" ++ toString port.toNat] := by
  have hdst : ' ' ∉ (dstName ++ ":" ++ toString port.toNat).toList := by
    simp only [String.toList_append, List.mem_append, not_or]
    exact ⟨⟨h',by decide⟩,notMem_toString _ (by decide)⟩
  have hparts : Split.parts " -> ".toList 0 (flowKey srcName dstName port).toList =
      [srcName.toList,(dstName ++ ":" ++ toString port.toNat).toList] := by
    have hjoin := Split.parts_join (s := ['-','>',' ']) h hdst
    simpa [flowKey] using hjoin
  rw [split, hparts, List.map_cons, List.map_cons, List.map_nil, String.ofList_toList,
    String.ofList_toList]

/-- For every cache of plain names: two keys are equal exactly when ports and both endpoints are
the same, and every key comes apart into its source and its destination with the port. -/
theorem flow_keys_faithful {c : Cache} (hc : PlainNames c) :
    (∀ (src dst src' dst' : IPv4) (port port' : UInt16),
      flowKey (resolveNameAt c src.toText) (resolveNameAt c dst.toText) port =
        flowKey (resolveNameAt c src'.toText) (resolveNameAt c dst'.toText) port' ↔
      port = port' ∧ identify c src = identify c src' ∧ identify c dst = identify c dst') ∧
    ∀ (src dst : IPv4) (port : UInt16),
      split (flowKey (resolveNameAt c src.toText) (resolveNameAt c dst.toText) port) " -> " =
        [resolveNameAt c src.toText,
          resolveNameAt c dst.toText ++ ":" ++ toString port.toNat] := by
  have hspace : ∀ ip : IPv4, ' ' ∉ (resolveNameAt c ip.toText).toList := by
    intro ip
    rw [resolveNameAt_text]
    exact Identity.space_notMem_text (hc.identify ip)
  have hname : ∀ ip ip' : IPv4, resolveNameAt c ip.toText = resolveNameAt c ip'.toText ↔
      identify c ip = identify c ip' := by
    intro ip ip'
    rw [resolveNameAt_text, resolveNameAt_text]
    constructor
    · exact Identity.text_injective (hc.identify ip) (hc.identify ip')
    · intro h
      rw [h]
  constructor
  · intro src dst src' dst' port port'
    rw [flowKey_inj (hspace src) (hspace src'), hname, hname]
  · intro src dst port
    exact split_flowKey (hspace src) (hspace dst)

/-- A pod, and a service with a colon in its name. -/
def plainCache : Cache :=
  (newCache.setPod "10.0.0.1" ⟨"checkout","shop","node-a"⟩).setService "10.96.0.7"
    ⟨"pricing:v2","shop"⟩

lemma plainCache_plainNames : PlainNames plainCache where
  pod ip info h := by
    by_cases hip : ip = "10.0.0.1"
    · subst hip
      have hfound : plainCache.lookupPod "10.0.0.1" = some ⟨"checkout","shop","node-a"⟩ := by decide
      cases hfound.symm.trans h
      decide
    · simp [plainCache, Cache.lookupPod, Cache.setPod, Cache.setService, newCache,
        Finmap.lookup_insert_of_ne _ hip] at h
  service ip info h := by
    by_cases hip : ip = "10.96.0.7"
    · subst hip
      have hfound : plainCache.lookupService "10.96.0.7" = some ⟨"pricing:v2","shop"⟩ := by decide
      cases hfound.symm.trans h
      decide
    · simp [plainCache, Cache.lookupService, Cache.setPod, Cache.setService, newCache,
        Finmap.lookup_insert_of_ne _ hip] at h

theorem flow_keys_faithful_plainCache :
    (∀ (src dst src' dst' : IPv4) (port port' : UInt16),
      flowKey (resolveNameAt plainCache src.toText) (resolveNameAt plainCache dst.toText) port =
        flowKey (resolveNameAt plainCache src'.toText) (resolveNameAt plainCache dst'.toText)
          port' ↔
      port = port' ∧ identify plainCache src = identify plainCache src' ∧
        identify plainCache dst = identify plainCache dst') ∧
    ∀ (src dst : IPv4) (port : UInt16),
      split (flowKey (resolveNameAt plainCache src.toText) (resolveNameAt plainCache dst.toText)
        port) " -> " =
        [resolveNameAt plainCache src.toText,
          resolveNameAt plainCache dst.toText ++ ":" ++ toString port.toNat] :=
  flow_keys_faithful plainCache_plainNames

end Keys
end Tracewulf.Ebpf
