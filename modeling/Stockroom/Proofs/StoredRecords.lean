import Stockroom.Audit
import Stockroom.Ledger.Row
import Stockroom.Outbox.Event
import Stockroom.Proofs.IdentifierText
import Stockroom.Proofs.QuantityText
import Stockroom.Receipt

/-!
# Stored values read back

A row is read back field by field. `ahead fields rest` is what a reader has in front of it when
`fields` are still to come and `rest` follows the record: absent fields at the end are not written,
so one equation for each kind of field covers records that end early as well.

Results:
1. `readText_text`, `readByteString_byteString`, `readUnsigned_unsigned`, `readInteger_integer`:
   what a row is made of is read back, whatever follows it.
2. `field_ahead` and `field?_ahead`: one field is read and the others are left.
3. `exists_record_iff`: a record has a row exactly when every field can be stored, that is, when its
   instants can.
4. `Move.reads_as_settled`, `Balance.reads_as_settled`, `Receipt.reads_as_settled`,
   `AuditEntry.reads_as_settled` and `Event.reads_as_settled`: what is read from the row of each
   record, also where a quantity is nothing under a minus sign or an instant lies in a leap second.
   `Move.reads_back` and the others say when that is the record itself.
-/
namespace Stockroom

namespace Cbor

/-! ## Heads -/

theorem head_eq_cons (kind : Kind) (n : Nat) :
    ∃ info tail, info < 28 ∧ head kind n = firstByte kind info :: tail := by
  unfold head
  split
  · exact ⟨n, [], by omega, rfl⟩
  · split
    · exact ⟨24, _, by decide, rfl⟩
    · split
      · exact ⟨25, _, by decide, rfl⟩
      · split
        · exact ⟨26, _, by decide, rfl⟩
        · exact ⟨27, _, by decide, rfl⟩

/-- A head that gives a number starts neither an open array nor, but for the simple values, null. -/
theorem firstByte_ne {kind : Kind} {info : Nat} (h : info < 28) :
    firstByte kind info ≠ 0x9f ∧ (kind ≠ .simple → firstByte kind info ≠ null) := by
  revert info
  cases kind <;> decide

theorem readHead_other {kind other : Kind} (hne : kind ≠ other) (n : Nat) (rest : Bytes) :
    readHead other (head kind n ++ rest) = none := by
  obtain ⟨info, tail, hinfo, hhead⟩ := head_eq_cons kind n
  have hkind := (kindOf_firstByte kind (show info < 32 by omega)).1
  rw [hhead, List.cons_append, readHead, if_neg (by rw [hkind]; exact hne)]

/-! ## Values -/

theorem readUnsigned_unsigned {n bound : Nat} (h : n < bound) (hbound : bound ≤ 2 ^ 64)
    (rest : Bytes) : readUnsigned bound (unsigned n ++ rest) = some (n, rest) := by
  rw [readUnsigned, unsigned, readHead_head .unsigned (by omega)]
  simp [Option.filter, h]

theorem readInteger_integer {n : Int} (hlow : -2 ^ 63 ≤ n) (hhigh : n < 2 ^ 63) (rest : Bytes) :
    readInteger (integer n ++ rest) = some (n, rest) := by
  rw [readInteger, integer]
  split
  · next h =>
    have hsmall : n.toNat < 2 ^ 63 := by omega
    have hback : ((n.toNat : Nat) : Int) = n := Int.toNat_of_nonneg h
    rw [readHead_head .unsigned (by omega)]
    simp only [Option.filter, hsmall, decide_true, if_true, Option.map_some, hback]
    rfl
  · next h =>
    have hsmall : (-1 - n).toNat < 2 ^ 63 := by omega
    have hback : -1 - (((-1 - n).toNat : Nat) : Int) = n := by omega
    rw [readHead_other (by decide), readHead_head .negative (by omega)]
    simp only [Option.filter, hsmall, decide_true, if_true, Option.map_some, hback]
    rfl

theorem readContent_content (kind : Kind) {content : Bytes} (h : content.length < 2 ^ 64)
    (rest : Bytes) :
    readContent kind (head kind content.length ++ content ++ rest) = some (content, rest) := by
  rw [readContent, List.append_assoc, readHead_head kind h]
  exact takeBytes_append content rest

theorem readByteString_byteString {bytes : Bytes} (h : bytes.length < 2 ^ 64) (rest : Bytes) :
    readByteString (byteString bytes ++ rest) = some (bytes, rest) :=
  readContent_content .bytes h rest

theorem readText_text {s : String} (h : Sized s) (rest : Bytes) :
    readText (text s ++ rest) = some (s, rest) := by
  rw [readText, text, readContent_content .text h]
  simp

/-! ## Fields still to come -/

/-- What a reader has in front of it when these fields are still to come and `rest` follows. -/
def ahead (fields : List (Option Bytes)) (rest : Bytes) : Elements :=
  ⟨some (trimAbsent fields).length, ((trimAbsent fields).map (·.getD [null])).flatten ++ rest⟩

theorem trimAbsent_cons (f : Option Bytes) (fields : List (Option Bytes)) :
    trimAbsent (f :: fields) =
      if (trimAbsent fields).isEmpty && f.isNone then [] else f :: trimAbsent fields := rfl

theorem ahead_some (item : Bytes) (fields : List (Option Bytes)) (rest : Bytes) :
    ahead (some item :: fields) rest =
      ⟨some ((trimAbsent fields).length + 1), item ++ (ahead fields rest).bytes⟩ := by
  simp [ahead, trimAbsent_cons]

theorem required_ahead {α : Type} {read : Reader α} {item : Bytes} {a : α}
    (h : ∀ rest, read (item ++ rest) = some (a, rest)) (fields : List (Option Bytes))
    (rest : Bytes) :
    required read (ahead (some item :: fields) rest) = some (a, ahead fields rest) := by
  rw [ahead_some, required]
  simp only [Elements.next, h, Option.bind_eq_bind, Option.bind_some]
  rfl

theorem optional_ahead_some {α : Type} {read : Reader α} {b : UInt8} {tail : Bytes} {a : α}
    (hnull : b ≠ null) (h : ∀ rest, read (b :: tail ++ rest) = some (a, rest))
    (fields : List (Option Bytes)) (rest : Bytes) :
    optional read (ahead (some (b :: tail) :: fields) rest) = some (some a, ahead fields rest) := by
  have hread := h (ahead fields rest).bytes
  rw [List.cons_append] at hread
  simp [ahead_some, optional, Elements.next, hnull, hread]
  rfl

/-- An absent field is null where another field follows, and not written at the end. -/
theorem optional_ahead_none {α : Type} (read : Reader α) (fields : List (Option Bytes))
    (rest : Bytes) :
    optional read (ahead (none :: fields) rest) = some (none, ahead fields rest) := by
  cases h : trimAbsent fields with
  | nil => simp [ahead, trimAbsent_cons, h, optional, Elements.next]
  | cons f tail => simp [ahead, trimAbsent_cons, h, optional, Elements.next]

theorem length_trimAbsent_le (fields : List (Option Bytes)) :
    (trimAbsent fields).length ≤ fields.length := by
  induction fields with
  | nil => exact Nat.le_refl _
  | cons f fields ih =>
    rw [trimAbsent_cons]
    split
    · exact Nat.zero_le _
    · exact Nat.succ_le_succ ih

theorem openArray_record {fields : List (Option Bytes)} (h : fields.length < 2 ^ 64)
    (rest : Bytes) : openArray (record fields ++ rest) = some (ahead fields rest) := by
  have hlen := length_trimAbsent_le fields
  have hread := readHead_head .array (n := (trimAbsent fields).length) (by omega)
    (((trimAbsent fields).map (·.getD [null])).flatten ++ rest)
  obtain ⟨info, tail, hinfo, hhead⟩ := head_eq_cons .array (trimAbsent fields).length
  rw [hhead, List.cons_append] at hread
  rw [record, array, List.length_map, List.append_assoc, hhead, List.cons_append, openArray,
    if_neg (firstByte_ne hinfo).1, hread]
  rfl

/-- A record is read back when its fields are. -/
theorem readRecord_record {α : Type} {read : Fields α} {fields : List (Option Bytes)} {a : α}
    (hlen : fields.length < 2 ^ 64) {rest : Bytes}
    (h : read (ahead fields rest) = some (a, ahead [] rest)) :
    readRecord read (record fields ++ rest) = some (a, rest) := by
  rw [readRecord, openArray_record hlen]
  simp only [Option.bind_eq_bind, Option.bind_some, h]
  rfl

theorem bind_ahead {α β : Type} {read : Fields α} {next : α → Fields β} {e e' : Elements} {a : α}
    (h : read e = some (a, e')) : (read >>= next) e = next a e' := by
  show (read e).bind (fun p => next p.1 p.2) = next a e'
  rw [h]
  rfl

end Cbor

/-! ## Values in rows -/

namespace Stored

variable {α : Type} [Stored α]

/-- The value is read back from its stored form, whatever follows it. -/
def ReadsBack (a : α) : Prop :=
  ∀ row, encode a = some row → ∀ rest, read (row ++ rest) = some (a, rest)

/-- From the stored form of a value another one is read, whatever follows it. -/
def ReadsAs (a b : α) : Prop :=
  ∀ row, encode a = some row → ∀ rest, read (row ++ rest) = some (b, rest)

/-- No value of the type has a stored form that could be taken for an absent field. -/
def NeverNull (α : Type) [Stored α] : Prop :=
  ∀ (a : α) row, encode a = some row → ∃ b tail, row = b :: tail ∧ b ≠ Cbor.null

theorem ReadsAs.decode {a b : α} (h : ReadsAs a b) {row : Bytes} (hrow : encode a = some row)
    (rest : Bytes) : decode (row ++ rest) = some b := by
  rw [Stored.decode, h row hrow rest]
  rfl

theorem ReadsBack.decode {a : α} (h : ReadsBack a) {row : Bytes} (hrow : encode a = some row) :
    decode row = some a := by
  have := h row hrow []
  rw [List.append_nil] at this
  rw [Stored.decode, this]
  rfl

/-! ### Kinds of values -/

theorem reads_back_text {s : String} (h : Sized s) : ReadsBack s := by
  rintro row hrow rest
  cases hrow
  exact Cbor.readText_text h rest

theorem reads_back_identifier (id : Identifier) : ReadsBack id := by
  rintro row hrow rest
  cases hrow
  have hlen : id.bytes.length < 2 ^ 64 := by
    rw [id.length_bytes]
    decide
  have hread := Cbor.readByteString_byteString hlen rest
  simp only [Stored.read, Option.bind_eq_bind, hread, Option.bind_some, Identifier.ofBytes?_bytes]
  rfl

/-- A quantity is read back under a sign that nothing does not keep. -/
theorem reads_settled_quantity (q : Quantity) : ReadsAs q q.settled := by
  rintro row hrow rest
  cases hrow
  have hread := Cbor.readText_text (Quantity.sized_text q) rest
  simp only [Stored.read, Option.bind_eq_bind, hread, Option.bind_some, Quantity.readStored_text]
  rfl

/-- Of an instant its date is read back. -/
theorem reads_settled_instant (t : Instant) : ReadsAs t t.settled := by
  rintro row hrow rest
  simp only [Stored.encode] at hrow
  split at hrow
  · next h =>
    cases hrow
    obtain ⟨-, hlow, hhigh⟩ := h
    simp only [Stored.read, Cbor.readInteger_integer hlow hhigh]
    rfl
  · cases hrow

theorem reads_back_uint64 (n : UInt64) : ReadsBack n := by
  rintro row hrow rest
  cases hrow
  have hread := Cbor.readUnsigned_unsigned n.toNat_lt (Nat.le_refl _) rest
  simp only [Stored.read, hread, Option.map_some, UInt64.ofNat_toNat]

theorem reads_back_uint32 (n : UInt32) : ReadsBack n := by
  rintro row hrow rest
  cases hrow
  have hread := Cbor.readUnsigned_unsigned n.toNat_lt (by decide) rest
  simp only [Stored.read, hread, Option.map_some, UInt32.ofNat_toNat]

theorem head_never_null {kind : Cbor.Kind} (hkind : kind ≠ .simple) (n : Nat) (rest : Bytes) :
    ∃ b tail, Cbor.head kind n ++ rest = b :: tail ∧ b ≠ Cbor.null := by
  obtain ⟨info, tail, hinfo, hhead⟩ := Cbor.head_eq_cons kind n
  exact ⟨_, tail ++ rest, by rw [hhead]; rfl, (Cbor.firstByte_ne hinfo).2 hkind⟩

theorem never_null_text : NeverNull String := by
  rintro s row hrow
  cases hrow
  exact head_never_null (by decide) _ _

theorem never_null_instant : NeverNull Instant := by
  rintro t row hrow
  simp only [Stored.encode] at hrow
  split at hrow
  · cases hrow
    rw [Cbor.integer]
    split
    · simpa using head_never_null (show Cbor.Kind.unsigned ≠ .simple by decide) _ []
    · simpa using head_never_null (show Cbor.Kind.negative ≠ .simple by decide) _ []
  · cases hrow

/-! ### Fields -/

theorem field_ahead {a b : α} {item : Option Bytes} (h : ReadsAs a b) (hput : put a = some item)
    (fields : List (Option Bytes)) (rest : Bytes) :
    field (Cbor.ahead (item :: fields) rest) = some (b, Cbor.ahead fields rest) := by
  obtain ⟨row, hrow, rfl⟩ := Option.map_eq_some_iff.1 hput
  exact Cbor.required_ahead (h row hrow) fields rest

theorem field?_ahead {f : α → α} {a : Option α} {item : Option Bytes} (hnull : NeverNull α)
    (h : ∀ b ∈ a, ReadsAs b (f b)) (hput : put? a = some item) (fields : List (Option Bytes))
    (rest : Bytes) :
    field? (Cbor.ahead (item :: fields) rest) = some (a.map f, Cbor.ahead fields rest) := by
  cases a with
  | none =>
    cases hput
    exact Cbor.optional_ahead_none _ fields rest
  | some a =>
    obtain ⟨row, hrow, rfl⟩ := Option.map_eq_some_iff.1 hput
    obtain ⟨b, tail, rfl, hb⟩ := hnull a row hrow
    exact Cbor.optional_ahead_some hb (h a rfl _ hrow) fields rest

theorem text?_ahead {s : Option String} {item : Option Bytes} (h : ∀ t ∈ s, Sized t)
    (hput : put? s = some item) (fields : List (Option Bytes)) (rest : Bytes) :
    field? (Cbor.ahead (item :: fields) rest) = some (s, Cbor.ahead fields rest) := by
  have hread := field?_ahead (f := id) never_null_text (fun t ht => reads_back_text (h t ht)) hput
    fields rest
  rwa [Option.map_id_fun, id] at hread

theorem instant?_ahead {t : Option Instant} {item : Option Bytes} (hput : put? t = some item)
    (fields : List (Option Bytes)) (rest : Bytes) :
    field? (Cbor.ahead (item :: fields) rest) =
      some (t.map Instant.settled, Cbor.ahead fields rest) :=
  field?_ahead never_null_instant (fun i _ => reads_settled_instant i) hput fields rest

/-- A record has a stored form exactly when each of its fields has one. -/
theorem record_eq_some {fields : List (Option (Option Bytes))} {row : Bytes}
    (h : record fields = some row) :
    ∃ items, List.Forall₂ (fun f item => f = some item) fields items ∧ row = Cbor.record items := by
  obtain ⟨items, hitems, rfl⟩ := Option.map_eq_some_iff.1 h
  refine ⟨items, ?_, rfl⟩
  clear h
  induction fields generalizing items with
  | nil =>
    cases hitems
    exact .nil
  | cons f fields ih =>
    simp only [List.mapM_cons, id, Option.bind_eq_bind, Option.bind_eq_some_iff] at hitems
    obtain ⟨item, hf, tail, htail, heq⟩ := hitems
    cases heq
    exact .cons hf (ih tail htail)

/-! ### What has a stored form -/

theorem encode_instant_iff {t : Instant} : (∃ row, encode t = some row) ↔ t.Storable := by
  rw [show encode t = if t.Storable then some (Cbor.integer t.nanos) else none from rfl]
  split
  · next h => exact ⟨fun _ => h, fun _ => ⟨_, rfl⟩⟩
  · next h =>
    refine ⟨?_, fun ht => absurd ht h⟩
    rintro ⟨row, hrow⟩
    cases hrow

theorem isSome_put_instant {t : Instant} : (put t).isSome ↔ t.Storable := by
  rw [put, Option.isSome_map, Option.isSome_iff_exists, encode_instant_iff]

theorem isSome_put?_instant {t : Option Instant} : (put? t).isSome ↔ ∀ i ∈ t, i.Storable := by
  cases t with
  | none => exact ⟨fun _ => nofun, fun _ => rfl⟩
  | some t => simpa [put?] using isSome_put_instant

theorem isSome_put?_text (s : Option String) : (put? s).isSome := by
  cases s with
  | none => rfl
  | some s => rfl

theorem isSome_mapM_id {fields : List (Option (Option Bytes))} :
    (fields.mapM id).isSome ↔ ∀ f ∈ fields, f.isSome := by
  induction fields with
  | nil => exact ⟨fun _ => nofun, fun _ => rfl⟩
  | cons f fields ih =>
    rw [List.forall_mem_cons, ← ih, List.mapM_cons]
    cases f with
    | none => simp
    | some item => cases fields.mapM id <;> simp

/-- A record has a stored form exactly when every field has one. -/
theorem exists_record_iff {fields : List (Option (Option Bytes))} :
    (∃ row, record fields = some row) ↔ ∀ f ∈ fields, f.isSome := by
  rw [← isSome_mapM_id, record, ← Option.isSome_iff_exists, Option.isSome_map]

end Stored

/-! ## Records -/

open Stored
open Cbor (bind_ahead readRecord_record)

/-- A move can be stored when its instant can. -/
theorem Move.exists_row_iff {m : Move} : (∃ row, encode m = some row) ↔ m.createdAt.Storable := by
  refine exists_record_iff.trans ?_
  simp only [List.forall_mem_cons]
  refine ⟨fun ⟨_, _, _, _, _, _, _, _, h, _⟩ => isSome_put_instant.1 h, fun h => ?_⟩
  exact ⟨rfl, rfl, rfl, rfl, rfl, rfl, rfl, isSome_put?_text _, isSome_put_instant.2 h, nofun⟩

theorem Move.storable_of_encode {m : Move} {row : Bytes} (h : encode m = some row) :
    m.createdAt.Storable :=
  exists_row_iff.1 ⟨row, h⟩

/-- The move without the sign of a quantity that is nothing, at the date of its instant. -/
def Move.settled (m : Move) : Move :=
  { m with quantity := m.quantity.settled, createdAt := m.createdAt.settled }

theorem Move.settled_eq {m : Move} (hquantity : m.quantity.IsSettled)
    (hcreated : m.createdAt.IsSettled) : m.settled = m := by
  rw [settled, Quantity.settled_eq hquantity, Instant.settled_eq hcreated]

/-- The texts of a move can be stored. -/
structure Move.Texts (m : Move) : Prop where
  reason : Sized m.reason
  requestId : ∀ r ∈ m.requestId, Sized r

theorem Move.reads_as_settled {m : Move} (h : m.Texts) : ReadsAs m m.settled := by
  intro row hrow rest
  obtain ⟨items, hitems, rfl⟩ := record_eq_some hrow
  obtain _ | ⟨h1, _ | ⟨h2, _ | ⟨h3, _ | ⟨h4, _ | ⟨h5, hitems⟩⟩⟩⟩⟩ := hitems
  obtain _ | ⟨h6, _ | ⟨h7, _ | ⟨h8, _ | ⟨h9, _ | _⟩⟩⟩⟩ := hitems
  refine readRecord_record (by simp) ?_
  rw [Move.fields, bind_ahead (field_ahead (reads_back_identifier _) h1 _ _),
    bind_ahead (field_ahead (reads_back_identifier _) h2 _ _),
    bind_ahead (field_ahead (reads_settled_quantity _) h3 _ _),
    bind_ahead (field_ahead (reads_back_identifier _) h4 _ _),
    bind_ahead (field_ahead (reads_back_identifier _) h5 _ _),
    bind_ahead (field_ahead (reads_back_text h.reason) h6 _ _),
    bind_ahead (field_ahead (reads_back_identifier _) h7 _ _),
    bind_ahead (text?_ahead h.requestId h8 _ _),
    bind_ahead (field_ahead (reads_settled_instant _) h9 _ _)]
  rfl

theorem Move.reads_back {m : Move} (hquantity : m.quantity.IsSettled)
    (hcreated : m.createdAt.IsSettled) (h : m.Texts) : ReadsBack m := by
  have hread := reads_as_settled h
  rwa [settled_eq hquantity hcreated] at hread

/-- A balance holds no instant, so it can always be stored. -/
theorem Balance.exists_row (b : Balance) : ∃ row, encode b = some row :=
  ⟨_, rfl⟩

/-- The balance without the signs of quantities that are nothing. -/
def Balance.settled (b : Balance) : Balance :=
  { b with onHand := b.onHand.settled, allocated := b.allocated.settled }

theorem Balance.reads_as_settled (b : Balance) : ReadsAs b b.settled := by
  intro row hrow rest
  obtain ⟨items, hitems, rfl⟩ := record_eq_some hrow
  obtain _ | ⟨h1, _ | ⟨h2, _ | ⟨h3, _ | ⟨h4, _ | _⟩⟩⟩⟩ := hitems
  refine readRecord_record (by simp) ?_
  rw [Balance.fields, bind_ahead (field_ahead (reads_back_identifier _) h1 _ _),
    bind_ahead (field_ahead (reads_back_identifier _) h2 _ _),
    bind_ahead (field_ahead (reads_settled_quantity _) h3 _ _),
    bind_ahead (field_ahead (reads_settled_quantity _) h4 _ _)]
  rfl

theorem Balance.settled_eq {b : Balance} (hhand : b.onHand.IsSettled)
    (hallocated : b.allocated.IsSettled) : b.settled = b := by
  rw [settled, Quantity.settled_eq hhand, Quantity.settled_eq hallocated]

theorem Balance.reads_back {b : Balance} (hhand : b.onHand.IsSettled)
    (hallocated : b.allocated.IsSettled) : ReadsBack b := by
  have hread := b.reads_as_settled
  rwa [settled_eq hhand hallocated] at hread

theorem Receipt.exists_row_iff {r : Receipt} :
    (∃ row, encode r = some row) ↔ r.createdAt.Storable := by
  refine exists_record_iff.trans ?_
  simp only [List.forall_mem_cons]
  refine ⟨fun ⟨_, _, _, _, _, h, _⟩ => isSome_put_instant.1 h, fun h => ?_⟩
  exact ⟨rfl, rfl, rfl, rfl, rfl, isSome_put_instant.2 h, nofun⟩

theorem Receipt.exists_row {r : Receipt} (h : r.createdAt.Storable) :
    ∃ row, encode r = some row :=
  exists_row_iff.2 h

/-- The receipt at the date of its instant. -/
def Receipt.settled (r : Receipt) : Receipt := { r with createdAt := r.createdAt.settled }

theorem Receipt.settled_eq {r : Receipt} (h : r.createdAt.IsSettled) : r.settled = r := by
  rw [settled, Instant.settled_eq h]

/-- The texts of a receipt can be stored. -/
structure Receipt.Texts (r : Receipt) : Prop where
  idempotencyKey : Sized r.idempotencyKey
  endpoint : Sized r.endpoint
  digest : Sized r.digest
  body : Sized r.body

theorem Receipt.reads_as_settled {r : Receipt} (h : r.Texts) : ReadsAs r r.settled := by
  intro row hrow rest
  obtain ⟨items, hitems, rfl⟩ := record_eq_some hrow
  obtain _ | ⟨h1, _ | ⟨h2, _ | ⟨h3, _ | ⟨h4, _ | ⟨h5, _ | ⟨h6, _ | _⟩⟩⟩⟩⟩⟩ := hitems
  refine readRecord_record (by simp) ?_
  rw [Receipt.fields, bind_ahead (field_ahead (reads_back_text h.idempotencyKey) h1 _ _),
    bind_ahead (field_ahead (reads_back_text h.endpoint) h2 _ _),
    bind_ahead (field_ahead (reads_back_identifier _) h3 _ _),
    bind_ahead (field_ahead (reads_back_text h.digest) h4 _ _),
    bind_ahead (field_ahead (reads_back_text h.body) h5 _ _),
    bind_ahead (field_ahead (reads_settled_instant _) h6 _ _)]
  rfl

theorem Receipt.reads_back {r : Receipt} (hcreated : r.createdAt.IsSettled) (h : r.Texts) :
    ReadsBack r := by
  have hread := reads_as_settled h
  rwa [settled_eq hcreated] at hread

/-- The texts of an audit entry can be stored. -/
structure AuditEntry.Texts (e : AuditEntry) : Prop where
  actorType : Sized e.actorType
  action : Sized e.action
  resource : Sized e.resource
  resourceId : Sized e.resourceId
  status : Sized e.status
  requestId : ∀ r ∈ e.requestId, Sized r
  metadata : Sized e.metadata

theorem AuditEntry.exists_row_iff {e : AuditEntry} :
    (∃ row, encode e = some row) ↔ e.createdAt.Storable := by
  refine exists_record_iff.trans ?_
  simp only [List.forall_mem_cons]
  refine ⟨fun ⟨_, _, _, _, _, _, _, _, h, _⟩ => isSome_put_instant.1 h, fun h => ?_⟩
  exact ⟨rfl, rfl, rfl, rfl, rfl, rfl, isSome_put?_text _, rfl, isSome_put_instant.2 h, nofun⟩

theorem AuditEntry.exists_row {e : AuditEntry} (h : e.createdAt.Storable) :
    ∃ row, encode e = some row :=
  exists_row_iff.2 h

/-- The entry at the date of its instant. -/
def AuditEntry.settled (e : AuditEntry) : AuditEntry := { e with createdAt := e.createdAt.settled }

theorem AuditEntry.settled_eq {e : AuditEntry} (h : e.createdAt.IsSettled) : e.settled = e := by
  rw [settled, Instant.settled_eq h]

theorem AuditEntry.reads_as_settled {e : AuditEntry} (h : e.Texts) : ReadsAs e e.settled := by
  intro row hrow rest
  obtain ⟨items, hitems, rfl⟩ := record_eq_some hrow
  obtain _ | ⟨h1, _ | ⟨h2, _ | ⟨h3, _ | ⟨h4, _ | ⟨h5, hitems⟩⟩⟩⟩⟩ := hitems
  obtain _ | ⟨h6, _ | ⟨h7, _ | ⟨h8, _ | ⟨h9, _ | _⟩⟩⟩⟩ := hitems
  refine readRecord_record (by simp) ?_
  rw [AuditEntry.fields, bind_ahead (field_ahead (reads_back_identifier _) h1 _ _),
    bind_ahead (field_ahead (reads_back_text h.actorType) h2 _ _),
    bind_ahead (field_ahead (reads_back_text h.action) h3 _ _),
    bind_ahead (field_ahead (reads_back_text h.resource) h4 _ _),
    bind_ahead (field_ahead (reads_back_text h.resourceId) h5 _ _),
    bind_ahead (field_ahead (reads_back_text h.status) h6 _ _),
    bind_ahead (text?_ahead h.requestId h7 _ _),
    bind_ahead (field_ahead (reads_back_text h.metadata) h8 _ _),
    bind_ahead (field_ahead (reads_settled_instant _) h9 _ _)]
  rfl

theorem AuditEntry.reads_back {e : AuditEntry} (hcreated : e.createdAt.IsSettled) (h : e.Texts) :
    ReadsBack e := by
  have hread := reads_as_settled h
  rwa [settled_eq hcreated] at hread

/-- The texts of an event can be stored. -/
structure Outbox.Event.Texts (e : Event) : Prop where
  topic : Sized e.topic
  payload : Sized e.payload
  lastError : ∀ r ∈ e.lastError, Sized r
  claimedBy : ∀ w ∈ e.claimedBy, Sized w

/-- The instants of an event can be stored. -/
structure Outbox.Event.Instants (e : Event) : Prop where
  createdAt : e.createdAt.Storable
  sentAt : ∀ t ∈ e.sentAt, t.Storable
  leaseEnd : ∀ t ∈ e.leaseEnd, t.Storable

/-- An event can be stored when its instants can. -/
theorem Outbox.Event.exists_row_iff {e : Event} :
    (∃ row, encode e = some row) ↔ e.Instants := by
  refine exists_record_iff.trans ?_
  simp only [List.forall_mem_cons]
  constructor
  · rintro ⟨_, _, _, hcreated, hsent, _, _, _, hend, _⟩
    exact ⟨isSome_put_instant.1 hcreated, isSome_put?_instant.1 hsent, isSome_put?_instant.1 hend⟩
  · rintro ⟨hcreated, hsent, hend⟩
    exact ⟨rfl, rfl, rfl, isSome_put_instant.2 hcreated, isSome_put?_instant.2 hsent, rfl,
      isSome_put?_text _, isSome_put?_text _, isSome_put?_instant.2 hend, nofun⟩

theorem Outbox.Event.instants_fresh_iff {id : UInt64} {topic payload : String} {now : Date} :
    (fresh id topic payload now).Instants ↔ now.Storable :=
  ⟨fun h => Instant.storable_ofDate.1 h.createdAt,
    fun h => ⟨Instant.storable_ofDate.2 h, nofun, nofun⟩⟩

theorem Outbox.Event.Instants.claim {e : Event} (h : e.Instants) {leaseEnd : Date}
    (hend : leaseEnd.Storable) (worker : String) : (e.claim worker leaseEnd).Instants := by
  refine ⟨h.createdAt, h.sentAt, ?_⟩
  rintro _ ⟨⟩
  exact Instant.storable_ofDate.2 hend

theorem Outbox.Event.Instants.of_claim {e : Event} {worker : String} {leaseEnd : Date}
    (h : (e.claim worker leaseEnd).Instants) : leaseEnd.Storable :=
  Instant.storable_ofDate.1 (h.leaseEnd _ rfl)

theorem Outbox.Event.Instants.sent {e : Event} (h : e.Instants) {now : Date}
    (hnow : now.Storable) : (e.sent now).Instants := by
  refine ⟨h.createdAt, ?_, nofun⟩
  rintro _ ⟨⟩
  exact Instant.storable_ofDate.2 hnow

theorem Outbox.Event.Instants.of_sent {e : Event} {now : Date} (h : (e.sent now).Instants) :
    now.Storable :=
  Instant.storable_ofDate.1 (h.sentAt _ rfl)

/-- The event at the dates of its instants. -/
def Outbox.Event.settled (e : Event) : Event :=
  { e with
    createdAt := e.createdAt.settled
    sentAt := e.sentAt.map Instant.settled
    leaseEnd := e.leaseEnd.map Instant.settled }

theorem Outbox.Event.reads_as_settled {e : Event} (h : e.Texts) : ReadsAs e e.settled := by
  intro row hrow rest
  obtain ⟨items, hitems, rfl⟩ := record_eq_some hrow
  obtain _ | ⟨h1, _ | ⟨h2, _ | ⟨h3, _ | ⟨h4, _ | ⟨h5, hitems⟩⟩⟩⟩⟩ := hitems
  obtain _ | ⟨h6, _ | ⟨h7, _ | ⟨h8, _ | ⟨h9, _ | _⟩⟩⟩⟩ := hitems
  refine readRecord_record (by simp) ?_
  rw [Event.fields, bind_ahead (field_ahead (reads_back_uint64 _) h1 _ _),
    bind_ahead (field_ahead (reads_back_text h.topic) h2 _ _),
    bind_ahead (field_ahead (reads_back_text h.payload) h3 _ _),
    bind_ahead (field_ahead (reads_settled_instant _) h4 _ _),
    bind_ahead (instant?_ahead h5 _ _),
    bind_ahead (field_ahead (reads_back_uint32 _) h6 _ _),
    bind_ahead (text?_ahead h.lastError h7 _ _),
    bind_ahead (text?_ahead h.claimedBy h8 _ _),
    bind_ahead (instant?_ahead h9 _ _)]
  rfl

/-- None of the instants of an event lies in a leap second. -/
structure Outbox.Event.IsSettled (e : Event) : Prop where
  createdAt : e.createdAt.IsSettled
  sentAt : ∀ t ∈ e.sentAt, t.IsSettled
  leaseEnd : ∀ t ∈ e.leaseEnd, t.IsSettled

theorem Outbox.Event.settled_eq {e : Event} (h : e.IsSettled) : e.settled = e := by
  have hmap : ∀ t : Option Instant, (∀ i ∈ t, i.IsSettled) → t.map Instant.settled = t := by
    rintro (_ | i) hi
    · rfl
    · exact congrArg some (Instant.settled_eq (hi i rfl))
  rw [settled, Instant.settled_eq h.createdAt, hmap _ h.sentAt, hmap _ h.leaseEnd]

/-- What is stored of an event is the event itself. -/
structure Outbox.Event.Lasting (e : Event) : Prop where
  texts : e.Texts
  settled : e.IsSettled

theorem Outbox.Event.reads_back {e : Event} (h : e.Lasting) : ReadsBack e := by
  have hread := reads_as_settled h.texts
  rwa [settled_eq h.settled] at hread

end Stockroom
