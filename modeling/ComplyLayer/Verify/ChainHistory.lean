import ComplyLayer.Audit.Documents
import ComplyLayer.Verify.AuditChain

/-!
# The chain pins its history

What `verify_chain` answers for every list of records, and what a chain that verifies says about
its past: the last hash and the length determine every record.
-/

namespace ComplyLayer

open Theory

/-! ## The first record that is wrong -/

/-- The record names the hash of the one before it, the one before the first being `start`, and has
the hash of what it holds. -/
def RightAt (rt : AuditRuntime) (start : String) (records : List AuditRecord) (index : Nat)
    (record : AuditRecord) : Prop :=
  record.prevHash = lastHash AuditRecord.hash start (records.take index) ∧
    computeHash rt record.toAuditFields = record.hash

theorem rightAt_succ {rt : AuditRuntime} : RightAt rt start (first :: rest) (index + 1) record ↔
    RightAt rt first.hash rest index record := by
  rw [RightAt, RightAt, List.take_succ_cons, lastHash_cons]

/-- The record is the first one that is wrong. -/
def StopsAt (rt : AuditRuntime) (start : String) (records : List AuditRecord) (index : Nat)
    (record : AuditRecord) : Prop :=
  records[index]? = some record ∧ ¬ RightAt rt start records index record ∧
    ∀ i < index, ∀ r, records[i]? = some r → RightAt rt start records i r

theorem stopsAt_zero {rt : AuditRuntime} (h : ¬ RightAt rt start (record :: rest) 0 record) :
    StopsAt rt start (record :: rest) 0 record :=
  ⟨rfl, h, fun _ hi => absurd hi (Nat.not_lt_zero _)⟩

theorem stopsAt_succ {rt : AuditRuntime} (hright : RightAt rt start (first :: rest) 0 first)
    (h : StopsAt rt first.hash rest index record) :
    StopsAt rt start (first :: rest) (index + 1) record := by
  obtain ⟨hrecord, hwrong, hbefore⟩ := h
  refine ⟨hrecord, fun h => hwrong (rightAt_succ.mp h), fun i hi r hr => ?_⟩
  cases i with
  | zero =>
    cases hr
    exact hright
  | succ i => exact rightAt_succ.mpr (hbefore i (Nat.lt_of_succ_lt_succ hi) r hr)

theorem verifyChainFrom_spec (rt : AuditRuntime) (start : String) (checked : Nat)
    (records : List AuditRecord) :
    ((verifyChainFrom rt start checked records).ok = true ∧
        ∀ i r, records[i]? = some r → RightAt rt start records i r) ∨
      ∃ index record, StopsAt rt start records index record ∧
        (verifyChainFrom rt start checked records).ok = false ∧
        (verifyChainFrom rt start checked records).checked = checked + index ∧
        (verifyChainFrom rt start checked records).brokenAt = some record.id := by
  induction records generalizing start checked with
  | nil =>
    left
    exact ⟨rfl, fun i r hr => by cases hr⟩
  | cons record rest ih =>
    rw [verifyChainFrom]
    split
    · rename_i hprev
      right
      exact ⟨0, record, stopsAt_zero fun h => hprev h.1, rfl, rfl, rfl⟩
    · rename_i hprev
      split
      · rename_i hhash
        right
        exact ⟨0, record, stopsAt_zero fun h => hhash h.2, rfl, rfl, rfl⟩
      · rename_i hhash
        have hright : RightAt rt start (record :: rest) 0 record :=
          ⟨not_not.mp hprev, not_not.mp hhash⟩
        rcases ih record.hash (checked + 1) with ⟨hok, hall⟩ | ⟨index, r, hstops, hok, hchecked, hid⟩
        · left
          refine ⟨hok, fun i r hr => ?_⟩
          cases i with
          | zero =>
            cases hr
            exact hright
          | succ i => exact rightAt_succ.mpr (hall i r hr)
        · right
          exact ⟨index + 1, r, stopsAt_succ hright hstops, hok, by rw [hchecked]; omega, hid⟩

/-! ## What the last hash determines -/

/-- The runtime's documents are those of the encoder, and its moments are written apart. -/
structure AuditRuntime.Encodes (rt : AuditRuntime) (encoder : JsonEncoder) : Prop where
  dumps : ∀ document, rt.dumps document = encoder.dumps document
  isoformat_injective : Function.Injective rt.isoformat

namespace AuditFields

/-- The documents hold values that JSON has. -/
structure IsNative (fields : AuditFields) : Prop where
  actor : (Value.dict fields.actor.entries).isNative = true
  subject : (Value.dict fields.subject.entries).isNative = true
  payload : (Value.dict fields.payload.entries).isNative = true

/-- Equal in every field, but for the order of keys. -/
structure Same (a b : AuditFields) : Prop where
  id : a.id = b.id
  tenantId : a.tenantId = b.tenantId
  eventType : a.eventType = b.eventType
  occurredAt : a.occurredAt = b.occurredAt
  actor : (Value.dict a.actor.entries).sortKeys = (Value.dict b.actor.entries).sortKeys
  subject : (Value.dict a.subject.entries).sortKeys = (Value.dict b.subject.entries).sortKeys
  payload : (Value.dict a.payload.entries).sortKeys = (Value.dict b.payload.entries).sortKeys
  prevHash : a.prevHash = b.prevHash

end AuditFields

/-- What the canonical payload is the text of. -/
def AuditFields.document (rt : AuditRuntime) (fields : AuditFields) : List (String × Value) :=
  [("id", .str fields.id),
    ("tenant_id", .str fields.tenantId),
    ("event_type", .str fields.eventType),
    ("occurred_at", .str (rt.isoformat fields.occurredAt)),
    ("actor", .dict fields.actor.entries),
    ("subject", .dict fields.subject.entries),
    ("payload", .dict fields.payload.entries),
    ("prev_hash", .str fields.prevHash)]

theorem isNative_document (rt : AuditRuntime) {fields : AuditFields} (h : fields.IsNative) :
    (Value.dict (fields.document rt)).isNative = true := by
  rw [Value.isNative, Value.isNativeEntries_iff]
  simp only [AuditFields.document, List.forall_mem_cons]
  exact ⟨rfl, rfl, rfl, rfl, h.actor, h.subject, h.payload, rfl,
    fun _ hentry => absurd hentry List.not_mem_nil⟩

/-- The canonical payload pins every field. -/
theorem same_of_canonicalPayload {rt : AuditRuntime} {encoder : JsonEncoder}
    (henc : encoder.Faithful) (hrt : rt.Encodes encoder) {a b : AuditFields} (ha : a.IsNative)
    (hb : b.IsNative) (h : canonicalPayload rt a = canonicalPayload rt b) : a.Same b := by
  have hdumps : encoder.dumps (a.document rt) = encoder.dumps (b.document rt) := by
    rw [← hrt.dumps, ← hrt.dumps]
    exact h
  have hfield (key : String) {v w : Value} (hv : (key, v) ∈ a.document rt)
      (hw : ∀ u, (key, u) ∈ b.document rt → u = w) : v.sortKeys = w.sortKeys :=
    sortKeys_eq_of_key henc (isNative_document rt ha) (isNative_document rt hb) hdumps hv hw
  have htext (key : String) {s t : String} (hs : (key, .str s) ∈ a.document rt)
      (ht : ∀ u, (key, u) ∈ b.document rt → u = .str t) : s = t := by
    have heq : (Value.str s).sortKeys = (Value.str t).sortKeys := hfield key hs ht
    exact Value.str.inj heq
  have hmoment : rt.isoformat a.occurredAt = rt.isoformat b.occurredAt :=
    htext "occurred_at" (by simp [AuditFields.document]) (by simp [AuditFields.document])
  exact {
    id := htext "id" (by simp [AuditFields.document]) (by simp [AuditFields.document])
    tenantId := htext "tenant_id" (by simp [AuditFields.document])
      (by simp [AuditFields.document])
    eventType := htext "event_type" (by simp [AuditFields.document])
      (by simp [AuditFields.document])
    occurredAt := hrt.isoformat_injective hmoment
    actor := hfield "actor" (by simp [AuditFields.document])
      (by simp [AuditFields.document])
    subject := hfield "subject" (by simp [AuditFields.document])
      (by simp [AuditFields.document])
    payload := hfield "payload" (by simp [AuditFields.document])
      (by simp [AuditFields.document])
    prevHash := htext "prev_hash" (by simp [AuditFields.document])
      (by simp [AuditFields.document]) }

/-- The records are the same, but for the order of keys and the moment of recording. -/
def AuditRecord.Same (r r' : AuditRecord) : Prop :=
  r.toAuditFields.Same r'.toAuditFields ∧ r.hash = r'.hash

/-- The digest tells the canonical payloads of these records apart. -/
def AuditRuntime.CollisionFree (rt : AuditRuntime) (l m : List AuditRecord) : Prop :=
  ∀ r ∈ l, ∀ r' ∈ m,
    rt.sha256 (canonicalPayload rt r.toAuditFields) =
        rt.sha256 (canonicalPayload rt r'.toAuditFields) →
      canonicalPayload rt r.toAuditFields = canonicalPayload rt r'.toAuditFields

/-- Two chains of one length that verify and end in the same hash hold the same records. -/
theorem same_of_verifyChain {rt : AuditRuntime} {encoder : JsonEncoder} (henc : encoder.Faithful)
    (hrt : rt.Encodes encoder) (hl : (verifyChain rt l).ok = true)
    (hm : (verifyChain rt m).ok = true) (hnative : ∀ r ∈ l, r.IsNative)
    (hnative' : ∀ r ∈ m, r.IsNative) (hcollision : rt.CollisionFree l m)
    (hlength : l.length = m.length)
    (hlast : lastHash AuditRecord.hash genesis l = lastHash AuditRecord.hash genesis m) :
    List.Forall₂ AuditRecord.Same l m := by
  obtain ⟨hlinked, hhashed⟩ := verifyChainFrom_ok_iff.mp hl
  obtain ⟨hlinked', hhashed'⟩ := verifyChainFrom_ok_iff.mp hm
  refine forall₂_of_linked (fun r hr r' hr' heq => ?_) hlinked hlinked' hlength hlast
  have hdigest : "sha256:" ++ rt.sha256 (canonicalPayload rt r.toAuditFields) =
      "sha256:" ++ rt.sha256 (canonicalPayload rt r'.toAuditFields) :=
    (hhashed r hr).trans (heq.trans (hhashed' r' hr').symm)
  have hpayload := hcollision r hr r' hr' (String.append_right_inj _ |>.mp hdigest)
  have hsame := same_of_canonicalPayload henc hrt (hnative r hr) (hnative' r' hr') hpayload
  exact ⟨hsame.prevHash, hsame, heq⟩

/-- A chain verifies exactly when every record is right, and otherwise the first one that is wrong
is named. Its length and its last hash pin every record of a chain that verifies. -/
theorem chain_pins_history (rt : AuditRuntime) :
    (∀ records, ((verifyChain rt records).ok = true ↔
        ∀ i r, records[i]? = some r → RightAt rt genesis records i r) ∧
      ((verifyChain rt records).ok = false → ∃ index record,
        StopsAt rt genesis records index record ∧
          (verifyChain rt records).checked = index ∧
          (verifyChain rt records).brokenAt = some record.id)) ∧
    (∀ encoder : JsonEncoder, encoder.Faithful → rt.Encodes encoder →
      ∀ l m, (∀ r ∈ l, r.IsNative) → (∀ r ∈ m, r.IsNative) → rt.CollisionFree l m →
        (verifyChain rt l).ok = true → (verifyChain rt m).ok = true → l.length = m.length →
        lastHash AuditRecord.hash genesis l = lastHash AuditRecord.hash genesis m →
          List.Forall₂ AuditRecord.Same l m) := by
  refine ⟨fun records => ?_, fun encoder henc hrt l m hnative hnative' hcollision hl hm hlength
    hlast => same_of_verifyChain henc hrt hl hm hnative hnative' hcollision hlength hlast⟩
  rcases verifyChainFrom_spec rt genesis 0 records with
    ⟨hok, hall⟩ | ⟨index, record, hstops, hok, hchecked, hid⟩
  · refine ⟨iff_of_true hok hall, fun hfalse => ?_⟩
    rw [verifyChain, hok] at hfalse
    cases hfalse
  · refine ⟨iff_of_false ?_ fun hall => hstops.2.1 (hall index record hstops.1), fun _ => ?_⟩
    · rw [verifyChain, hok]
      exact Bool.false_ne_true
    · rw [Nat.zero_add] at hchecked
      exact ⟨index, record, hstops, hchecked, hid⟩

/-! ## A runtime that is one -/

/-- An encoder that writes a float as its numerator and its denominator. -/
def plainEncoder : JsonEncoder where
  float q :=
    { text := (toString q.num).toList ++ 'e' :: q.den.repr.toList
      ne_nil := by simp
      isNumber := by
        rw [List.forall_mem_append, List.forall_mem_cons]
        refine ⟨fun c hc => (intNumber q.num).isNumber c hc, rfl, fun c hc => ?_⟩
        rw [isNumberChar, isDigit_of_mem_repr _ hc]
        rfl }
  negativeZero :=
    { text := ['-', '0', '.', '0']
      ne_nil := by simp
      isNumber c hc := by
        simp only [List.mem_cons, List.not_mem_nil, or_false] at hc
        obtain rfl | rfl | rfl | rfl := hc <;> rfl }
  str v := v.typeName

theorem ne_of_mem_toString {c d : Char} (n : Int) (h : c ∈ (toString n).toList)
    (hd : d.isDigit = false) (hminus : d ≠ '-') : (c != d) = true := by
  rw [bne_iff_ne]
  rintro rfl
  rcases mem_toString n h with hdigit | rfl
  · rw [hd] at hdigit
    cases hdigit
  · exact hminus rfl

theorem plainEncoder_faithful : plainEncoder.Faithful where
  float_injective q q' h := by
    have htext := congrArg JsonNumber.text h
    obtain ⟨hnum, hden⟩ := append_inj_of_follows
      (fun c hc => ne_of_mem_toString q.num (d := 'e') hc rfl (by decide))
      (fun c hc => ne_of_mem_toString q'.num hc rfl (by decide))
      (follows_cons (by decide) _) (follows_cons (by decide) _) htext
    refine Rat.ext (intNumber_injective (JsonNumber.ext hnum)) ?_
    have hdigits := natOfDigits?_repr q.den
    rw [(List.cons.inj hden).2, natOfDigits?_repr] at hdigits
    exact (Option.some.inj hdigits).symm
  float_ne_int {q n} h := by
    have hmem : 'e' ∈ (toString n).toList := by
      rw [show (toString n).toList = (plainEncoder.float q).text from (congrArg JsonNumber.text h).symm]
      exact List.mem_append_right _ List.mem_cons_self
    have hne := ne_of_mem_toString (d := 'e') n hmem rfl (by decide)
    exact absurd hne (by decide)
  negativeZero_ne_float {q} h := by
    have hmem : '.' ∈ (toString q.num).toList ++ 'e' :: q.den.repr.toList := by
      rw [show (toString q.num).toList ++ 'e' :: q.den.repr.toList = plainEncoder.negativeZero.text
        from (congrArg JsonNumber.text h).symm]
      exact .tail _ (.tail _ (.head _))
    rcases List.mem_append.mp hmem with hnum | hden
    · exact absurd (ne_of_mem_toString (d := '.') q.num hnum rfl (by decide)) (by decide)
    · have hdigit := isDigit_of_mem_repr _ ((List.mem_cons.mp hden).resolve_left (by decide))
      exact absurd hdigit (by decide)
  negativeZero_ne_int {n} h := by
    have hmem : '.' ∈ (toString n).toList := by
      rw [show (toString n).toList = plainEncoder.negativeZero.text
        from (congrArg JsonNumber.text h).symm]
      exact .tail _ (.tail _ (.head _))
    exact absurd (ne_of_mem_toString (d := '.') n hmem rfl (by decide)) (by decide)

def offsetText : Option Int → List Char
  | none => []
  | some offset => '+' :: (toString offset).toList

/-- A runtime whose digest of a text is the text, and whose moments are written in microseconds. -/
def textAudit : AuditRuntime where
  sha256 text := text
  dumps := plainEncoder.dumps
  isoformat moment := String.ofList ((toString moment.wall).toList ++ offsetText moment.utcoffset)
  jsonb document := some document

theorem intText_injective {n m : Int} (h : (toString n).toList = (toString m).toList) : n = m :=
  intNumber_injective (JsonNumber.ext h)

theorem textAudit_encodes : textAudit.Encodes plainEncoder where
  dumps _ := rfl
  isoformat_injective moment moment' h := by
    have hfollows (offset : Option Int) : Follows (fun c => (c != '+') = false) (offsetText offset) := by
      cases offset with
      | none => exact follows_nil
      | some offset => exact follows_cons (by decide) _
    obtain ⟨hwall, hoffset⟩ := append_inj_of_follows
      (fun c hc => ne_of_mem_toString moment.wall (d := '+') hc rfl (by decide))
      (fun c hc => ne_of_mem_toString moment'.wall hc rfl (by decide))
      (hfollows _) (hfollows _) (String.ofList_injective h)
    obtain ⟨wall, offset⟩ := moment
    obtain ⟨wall', offset'⟩ := moment'
    cases intText_injective hwall
    cases offset with
    | none =>
      cases offset' with
      | none => rfl
      | some _ => cases hoffset
    | some o =>
      cases offset' with
      | none => cases hoffset
      | some o' => rw [intText_injective (List.cons.inj hoffset).2]

/-- The first record of a chain, by an actor. -/
def firstRecord (actor : Dict String Value) : AuditRecord :=
  let fields : AuditFields :=
    { id := "aud_1", tenantId := "tnt_audit", eventType := "rule.activated",
      occurredAt := ⟨0, some 0⟩, actor := actor, subject := ∅, payload := ∅, prevHash := genesis }
  { fields with recordedAt := 5, hash := computeHash textAudit fields }

def actorById : Dict String Value := .ofList [("id", .str "usr_1"), ("via", .str "api")]

def actorByVia : Dict String Value := .ofList [("via", .str "api"), ("id", .str "usr_1")]

theorem chain_pins_history_reordered :
    List.Forall₂ AuditRecord.Same [firstRecord actorById] [firstRecord actorByVia] := by
  have hverify (actor : Dict String Value) : (verifyChain textAudit [firstRecord actor]).ok = true :=
    verifyChainFrom_ok_iff.mpr ⟨⟨rfl, trivial⟩, List.forall_mem_singleton.mpr rfl⟩
  have hnative : ∀ actor ∈ [actorById, actorByVia], (firstRecord actor).IsNative := by
    intro actor hactor
    refine ⟨?_, rfl, rfl⟩
    rcases List.mem_pair.mp hactor with rfl | rfl <;> rfl
  refine (chain_pins_history textAudit).2 plainEncoder plainEncoder_faithful textAudit_encodes _ _
    (List.forall_mem_singleton.mpr (hnative _ (by simp)))
    (List.forall_mem_singleton.mpr (hnative _ (by simp))) (fun _ _ _ _ h => h)
    (hverify actorById) (hverify actorByVia) rfl ?_
  have hjson : plainEncoder.json (.dict ((firstRecord actorById).document textAudit)) =
      plainEncoder.json (.dict ((firstRecord actorByVia).document textAudit)) := rfl
  exact congrArg (fun json : Json => "sha256:" ++ String.ofList json.print) hjson

end ComplyLayer
