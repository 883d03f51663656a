import AqEngine.Lib.Varint

namespace AqEngine.Lib

open List

inductive WireType where
  | varint | sixtyFourBit | lengthDelimited | startGroup | endGroup | thirtyTwoBit
  deriving DecidableEq, Repr

namespace WireType

def code : WireType → Nat
  | varint => 0
  | sixtyFourBit => 1
  | lengthDelimited => 2
  | startGroup => 3
  | endGroup => 4
  | thirtyTwoBit => 5

def ofCode : Nat → Option WireType
  | 0 => some varint
  | 1 => some sixtyFourBit
  | 2 => some lengthDelimited
  | 3 => some startGroup
  | 4 => some endGroup
  | 5 => some thirtyTwoBit
  | _ => none

theorem ofCode_code (w : WireType) : ofCode w.code = some w := by
  cases w <;> rfl

theorem code_lt (w : WireType) : w.code < 8 := by
  cases w <;> decide

end WireType

def ValidTag (tag : Nat) : Prop := 0 < tag ∧ tag < 2 ^ 29

instance (tag : Nat) : Decidable (ValidTag tag) := inferInstanceAs (Decidable (_ ∧ _))

def encodeKey (tag : Nat) (wire : WireType) : List UInt8 :=
  Varint.encode (tag * 8 + wire.code).toUInt64

def keyLen (tag : Nat) : Nat := Varint.encodedLen (tag * 8).toUInt64

def decodeKey (buf : List UInt8) : Except WireError ((Nat × WireType) × List UInt8) := do
  let (key, buf) ← Varint.decode buf
  if 2 ^ 32 ≤ key.toNat then .error .invalidKey
  else
    match WireType.ofCode (key.toNat % 8) with
    | none => .error .invalidWireType
    | some wire =>
      if key.toNat / 8 = 0 then .error .invalidTag else .ok ((key.toNat / 8, wire), buf)

def advance (n : Nat) (buf : List UInt8) : Except WireError (List UInt8) :=
  if buf.length < n then .error .bufferUnderflow else .ok (buf.drop n)

mutual

/-- Passes over one unknown field. Groups nest, so the depth is bounded; the
first argument only bounds the number of calls. -/
def skipField : Nat → Nat → WireType → Nat → List UInt8 → Except WireError (List UInt8)
  | 0, _, _, _, _ => .error .recursionLimit
  | fuel + 1, depth, wire, tag, buf =>
    if depth = 0 then .error .recursionLimit
    else
      match wire with
      | .varint => (Varint.decode buf).map (·.2)
      | .thirtyTwoBit => advance 4 buf
      | .sixtyFourBit => advance 8 buf
      | .lengthDelimited => do
        let (len, buf) ← Varint.decode buf
        advance len.toNat buf
      | .startGroup => skipGroup fuel depth tag buf
      | .endGroup => .error .unexpectedEndGroup

def skipGroup : Nat → Nat → Nat → List UInt8 → Except WireError (List UInt8)
  | 0, _, _, _ => .error .recursionLimit
  | fuel + 1, depth, tag, buf => do
    let ((inner, wire), buf) ← decodeKey buf
    if wire = .endGroup then
      if inner = tag then .ok buf else .error .unexpectedEndGroup
    else
      let buf ← skipField fuel (depth - 1) wire inner buf
      skipGroup fuel depth tag buf

end

/-- Enough calls for any buffer: every second one reads a key. -/
def skip (depth : Nat) (wire : WireType) (tag : Nat) (buf : List UInt8) :
    Except WireError (List UInt8) := skipField (2 * buf.length + 2) depth wire tag buf

section

variable {M ε : Type}

/-- Repeats the step while more than `limit` bytes remain. Every step reads
a key, so there are no more steps than bytes. -/
def readWhile (step : M → List UInt8 → Except ε (M × List UInt8)) (limit : Nat) :
    Nat → M → List UInt8 → Except ε (M × List UInt8)
  | 0, m, buf => .ok (m, buf)
  | fuel + 1, m, buf =>
    if buf.length ≤ limit then .ok (m, buf)
    else do
      let (m, buf) ← step m buf
      readWhile step limit fuel m buf

/-- The bytes are a sequence of fields that take the step from one message
to another, whatever follows them. -/
inductive Reads (step : M → List UInt8 → Except ε (M × List UInt8)) :
    M → List UInt8 → M → Prop
  | nil (m : M) : Reads step m [] m
  | cons {m m' m'' : M} {field bytes : List UInt8} (hne : field ≠ [])
      (hstep : ∀ rest, step m (field ++ rest) = .ok (m', rest))
      (hrest : Reads step m' bytes m'') : Reads step m (field ++ bytes) m''

variable {step : M → List UInt8 → Except ε (M × List UInt8)} {m m' m'' : M}
  {a b : List UInt8}

theorem Reads.field (hne : a ≠ []) (hstep : ∀ rest, step m (a ++ rest) = .ok (m', rest)) :
    Reads step m a m' := by
  rw [← append_nil a]
  exact .cons hne hstep (.nil m')

theorem Reads.append (h : Reads step m a m') (h' : Reads step m' b m'') :
    Reads step m (a ++ b) m'' := by
  induction h with
  | nil => exact h'
  | cons hne hstep _ ih =>
      rw [append_assoc]
      exact .cons hne hstep (ih h')

theorem Reads.readWhile (h : Reads step m a m') (rest : List UInt8) {fuel : Nat}
    (hf : a.length ≤ fuel) :
    readWhile step rest.length fuel m (a ++ rest) = .ok (m', rest) := by
  induction h generalizing fuel with
  | nil m => cases fuel <;> simp [Lib.readWhile]
  | @cons m _ _ field bytes hne hstep _ ih =>
      have hpos : 0 < field.length := length_pos_iff.mpr hne
      rw [length_append] at hf
      obtain ⟨fuel, rfl⟩ : ∃ n, fuel = n + 1 := ⟨fuel - 1, by omega⟩
      have hm : ¬(field ++ bytes ++ rest).length ≤ rest.length := by
        simp only [length_append]
        omega
      rw [Lib.readWhile, if_neg hm, append_assoc, hstep]
      exact ih (by omega)

end

def checkWireType (expected actual : WireType) : Except WireError Unit :=
  if actual = expected then .ok () else .error .unexpectedWireType

/-- A field type that travels as one varint. -/
structure Scalar (α : Type) where
  toWire : α → UInt64
  ofWire : UInt64 → α
  ofWire_toWire : ∀ a, ofWire (toWire a) = a

/-- A field type that travels as length delimited bytes. -/
structure Blob (α : Type) where
  toBytes : α → List UInt8
  ofBytes : List UInt8 → Except WireError α
  ofBytes_toBytes : ∀ a, ofBytes (toBytes a) = .ok a

def uint64 : Scalar UInt64 := ⟨id, id, fun _ => rfl⟩

/-- Bits above the lower half of the varint are dropped. -/
def uint32 : Scalar UInt32 := ⟨UInt32.toUInt64, UInt64.toUInt32, fun a => by simp⟩

def zigzag (v : Int64) : UInt64 :=
  if 0 ≤ v.toInt then (2 * v.toInt).toNat.toUInt64 else (-2 * v.toInt - 1).toNat.toUInt64

def unzigzag (v : UInt64) : Int64 :=
  if v.toNat % 2 = 0 then Int64.ofInt (v.toNat / 2 : Nat)
  else Int64.ofInt (-(v.toNat / 2 : Nat) - 1)

theorem unzigzag_zigzag (v : Int64) : unzigzag (zigzag v) = v := by
  have hlo := Int64.le_toInt v
  have hhi := Int64.toInt_lt v
  unfold zigzag
  split
  · have hv : ((2 * v.toInt).toNat.toUInt64).toNat = (2 * v.toInt).toNat :=
      Nat.mod_eq_of_lt (by omega)
    rw [unzigzag, hv, if_pos (by omega), show (((2 * v.toInt).toNat / 2 : Nat) : Int) = v.toInt by
      omega, Int64.ofInt_toInt]
  · have hv : ((-2 * v.toInt - 1).toNat.toUInt64).toNat = (-2 * v.toInt - 1).toNat :=
      Nat.mod_eq_of_lt (by omega)
    rw [unzigzag, hv, if_neg (by omega),
      show -(((-2 * v.toInt - 1).toNat / 2 : Nat) : Int) - 1 = v.toInt by omega, Int64.ofInt_toInt]

def sint64 : Scalar Int64 := ⟨zigzag, unzigzag, unzigzag_zigzag⟩

def bytes : Blob (List UInt8) := ⟨id, .ok, fun _ => rfl⟩

def textBytes (s : String) : List UInt8 := s.toByteArray.data.toList

def textOfBytes (b : List UInt8) : Except WireError String :=
  match String.fromUTF8? ⟨b.toArray⟩ with
  | some s => .ok s
  | none => .error .invalidText

theorem textOfBytes_textBytes (s : String) : textOfBytes (textBytes s) = .ok s := by
  have hvalid : s.toByteArray.IsValidUTF8 := s.isValidUTF8
  simp [textOfBytes, textBytes, String.fromUTF8?, hvalid, String.fromUTF8]

def string : Blob String := ⟨textBytes, textOfBytes, textOfBytes_textBytes⟩

section

variable {α M : Type}

def Scalar.encode (s : Scalar α) (tag : Nat) (a : α) : List UInt8 :=
  encodeKey tag .varint ++ Varint.encode (s.toWire a)

def Scalar.encodedLen (s : Scalar α) (tag : Nat) (a : α) : Nat :=
  keyLen tag + Varint.encodedLen (s.toWire a)

def Scalar.merge (s : Scalar α) (set : α → M) (wire : WireType) (buf : List UInt8) :
    Except WireError (M × List UInt8) := do
  checkWireType .varint wire
  let (v, buf) ← Varint.decode buf
  .ok (set (s.ofWire v), buf)

def delimited (tag len : Nat) (payload : List UInt8) : List UInt8 :=
  encodeKey tag .lengthDelimited ++ (Varint.encode len.toUInt64 ++ payload)

def delimitedLen (tag len : Nat) : Nat := keyLen tag + Varint.encodedLen len.toUInt64 + len

def Blob.encode (b : Blob α) (tag : Nat) (a : α) : List UInt8 :=
  delimited tag (b.toBytes a).length (b.toBytes a)

def Blob.encodedLen (b : Blob α) (tag : Nat) (a : α) : Nat := delimitedLen tag (b.toBytes a).length

def Blob.merge (b : Blob α) (set : α → M) (wire : WireType) (buf : List UInt8) :
    Except WireError (M × List UInt8) := do
  checkWireType .lengthDelimited wire
  let (len, buf) ← Varint.decode buf
  if buf.length < len.toNat then .error .bufferUnderflow
  else
    let a ← b.ofBytes (buf.take len.toNat)
    .ok (set a, buf.drop len.toNat)

/-- One round of a message's decoder: a key, then the field it announces. -/
def nextField (mergeField : M → Nat → WireType → List UInt8 → Except WireError (M × List UInt8))
    (m : M) (buf : List UInt8) : Except WireError (M × List UInt8) := do
  let ((tag, wire), buf) ← decodeKey buf
  mergeField m tag wire buf

abbrev MergeField (M : Type) :=
  Nat → M → Nat → WireType → List UInt8 → Except WireError (M × List UInt8)

def mergeMessage (mergeField : MergeField M) (depth : Nat) (m : M) (wire : WireType)
    (buf : List UInt8) : Except WireError (M × List UInt8) := do
  checkWireType .lengthDelimited wire
  if depth = 0 then .error .recursionLimit
  else
    let (len, buf) ← Varint.decode buf
    if buf.length < len.toNat then .error .bufferUnderflow
    else
      let limit := buf.length - len.toNat
      let (m, buf) ← readWhile (nextField (mergeField (depth - 1))) limit buf.length m buf
      if buf.length = limit then .ok (m, buf) else .error .lengthExceeded

/-- How deep messages and groups may nest. -/
def recursionLimit : Nat := 100

def decodeMessage (mergeField : MergeField M) (default : M) (buf : List UInt8) :
    Except WireError M := do
  let (m, _) ← readWhile (nextField (mergeField recursionLimit)) 0 buf.length default buf
  .ok m

end

def optionally {α : Type} (value : Option α) (write : α → List UInt8) : List UInt8 :=
  match value with
  | some v => write v
  | none => []

def optionalLen {α : Type} (value : Option α) (len : α → Nat) : Nat :=
  match value with
  | some v => len v
  | none => 0

def unlessDefault {α : Type} [DecidableEq α] (default value : α) (write : α → List UInt8) :
    List UInt8 :=
  if value = default then [] else write value

def defaultLen {α : Type} [DecidableEq α] (default value : α) (len : α → Nat) : Nat :=
  if value = default then 0 else len value

section

variable {tag : Nat} (wire : WireType) (rest : List UInt8)

theorem decodeKey_encodeKey (ht : ValidTag tag) :
    decodeKey (encodeKey tag wire ++ rest) = .ok ((tag, wire), rest) := by
  obtain ⟨hpos, hlt⟩ := ht
  have hc := wire.code_lt
  have hv : ((tag * 8 + wire.code).toUInt64).toNat = tag * 8 + wire.code :=
    Nat.mod_eq_of_lt (by omega)
  have hm : (tag * 8 + wire.code) % 8 = wire.code := by omega
  have hd : (tag * 8 + wire.code) / 8 = tag := by omega
  rw [decodeKey, encodeKey, Varint.decode_encode]
  change (if 2 ^ 32 ≤ ((tag * 8 + wire.code).toUInt64).toNat then _ else _) = _
  rw [hv, if_neg (by omega), hm, hd, wire.ofCode_code]
  change (if tag = 0 then _ else _) = _
  rw [if_neg hpos.ne']

theorem length_encodeKey (ht : ValidTag tag) : (encodeKey tag wire).length = keyLen tag := by
  obtain ⟨hpos, hlt⟩ := ht
  have hco := wire.code_lt
  have hl : ∀ c, c < 8 → (tag * 8 + c).log2 = tag.log2 + 3 := by
    intro c hc
    rw [Nat.log2_eq_log_two, Nat.log2_eq_log_two]
    have hd : Nat.log 2 ((tag * 8 + c) / 2 ^ 3) = Nat.log 2 (tag * 8 + c) - 3 :=
      Nat.log_div_base_pow ..
    rw [show (tag * 8 + c) / 2 ^ 3 = tag by omega] at hd
    have hth : 3 ≤ Nat.log 2 (tag * 8 + c) := Nat.le_log_of_pow_le (by decide) (by omega)
    omega
  have hk : ((tag * 8 + wire.code).toUInt64).toNat = tag * 8 + wire.code :=
    Nat.mod_eq_of_lt (by omega)
  have hle : ((tag * 8).toUInt64).toNat = tag * 8 := Nat.mod_eq_of_lt (by omega)
  have hz : (tag * 8).log2 = tag.log2 + 3 := hl 0 (by decide)
  rw [encodeKey, keyLen, Varint.length_encode, Varint.encodedLen, Varint.encodedLen, hk, hle,
    hl _ hco, hz]

theorem encodeKey_append_ne_nil (tag : Nat) : encodeKey tag wire ++ rest ≠ [] := by
  simp [encodeKey]

end

section

variable {α M ε : Type} {step : M → List UInt8 → Except ε (M × List UInt8)}

theorem Reads.optionally {m : M} {value : Option α} {write : α → List UInt8} {f : Option α → M}
    (hn : f none = m) (h : ∀ a, value = some a → Reads step m (write a) (f (some a))) :
    Reads step m (optionally value write) (f value) := by
  cases value with
  | none =>
    rw [hn]
    exact .nil _
  | some a => exact h a rfl

theorem Reads.unlessDefault [DecidableEq α] {m : M} {default value : α} {write : α → List UInt8}
    {f : α → M} (hd : f default = m) (h : Reads step m (write value) (f value)) :
    Reads step m (unlessDefault default value write) (f value) := by
  unfold Lib.unlessDefault
  split
  · rename_i heq
    rw [heq, hd]
    exact .nil _
  · exact h

end

variable {α M : Type} {tag : Nat} {m m' : M}
  {mergeField : M → Nat → WireType → List UInt8 → Except WireError (M × List UInt8)}

theorem Scalar.length_encode (s : Scalar α) (a : α) (ht : ValidTag tag) :
    (s.encode tag a).length = s.encodedLen tag a := by
  rw [Scalar.encode, length_append, length_encodeKey _ ht, Varint.length_encode,
    Scalar.encodedLen]

theorem length_delimited {len : Nat} (payload : List UInt8) (hl : payload.length = len)
    (ht : ValidTag tag) : (delimited tag len payload).length = delimitedLen tag len := by
  rw [delimited, length_append, length_append, length_encodeKey _ ht,
    Varint.length_encode, delimitedLen, hl, Nat.add_assoc]

theorem length_le_delimited (tag len : Nat) (payload : List UInt8) :
    payload.length ≤ (delimited tag len payload).length := by
  simp only [delimited, length_append]
  omega

theorem Scalar.reads (s : Scalar α) (set : α → M) (a : α) (ht : ValidTag tag)
    (hs : ∀ buf, mergeField m tag .varint buf = s.merge set .varint buf) :
    Reads (nextField mergeField) m (s.encode tag a) (set a) := by
  refine .field (encodeKey_append_ne_nil _ _ _) fun rest => ?_
  rw [Scalar.encode, append_assoc, nextField, decodeKey_encodeKey _ _ ht]
  change mergeField m tag .varint _ = _
  rw [hs, Scalar.merge, Varint.decode_encode]
  change Except.ok (set (s.ofWire (s.toWire a)), rest) = _
  rw [s.ofWire_toWire]

theorem toNat_length {payload : List UInt8} (h : payload.length < 2 ^ 64) :
    payload.length.toUInt64.toNat = payload.length := Nat.mod_eq_of_lt h

theorem Blob.reads (b : Blob α) (set : α → M) (a : α) (ht : ValidTag tag)
    (hl : (b.toBytes a).length < 2 ^ 64)
    (hs : ∀ buf, mergeField m tag .lengthDelimited buf = b.merge set .lengthDelimited buf) :
    Reads (nextField mergeField) m (b.encode tag a) (set a) := by
  refine .field (encodeKey_append_ne_nil _ _ _) fun rest => ?_
  rw [Blob.encode, delimited, append_assoc, nextField, decodeKey_encodeKey _ _ ht]
  change mergeField m tag .lengthDelimited _ = _
  rw [hs, Blob.merge, append_assoc, Varint.decode_encode]
  change (if (b.toBytes a ++ rest).length < (b.toBytes a).length.toUInt64.toNat then _ else _) = _
  rw [toNat_length hl, if_neg (by simp), take_left, drop_left, b.ofBytes_toBytes]
  rfl

theorem Scalar.reads_optionally (s : Scalar α) (set : M → Option α → M) {value : Option α}
    (ht : ValidTag tag := by decide) (hn : set m none = m := by rfl)
    (hs : ∀ buf, mergeField m tag .varint buf =
      s.merge (fun a => set m (some a)) .varint buf := by exact fun _ => rfl) :
    Reads (nextField mergeField) m (optionally value (s.encode tag)) (set m value) :=
  .optionally hn fun a _ => s.reads _ a ht hs

theorem Scalar.reads_unlessDefault [DecidableEq α] (s : Scalar α) (set : M → α → M)
    {default value : α} (ht : ValidTag tag := by decide)
    (hd : set m default = m := by rfl)
    (hs : ∀ buf, mergeField m tag .varint buf =
      s.merge (set m) .varint buf := by exact fun _ => rfl) :
    Reads (nextField mergeField) m (unlessDefault default value (s.encode tag)) (set m value) :=
  .unlessDefault hd (s.reads _ value ht hs)

theorem Blob.reads_optionally (b : Blob α) (set : M → Option α → M) {value : Option α}
    (hl : ∀ a ∈ value, (b.toBytes a).length < 2 ^ 64) (ht : ValidTag tag := by decide)
    (hn : set m none = m := by rfl)
    (hs : ∀ buf, mergeField m tag .lengthDelimited buf =
      b.merge (fun a => set m (some a)) .lengthDelimited buf := by exact fun _ => rfl) :
    Reads (nextField mergeField) m (optionally value (b.encode tag)) (set m value) :=
  .optionally hn fun a ha => b.reads _ a ht (hl a ha) hs

theorem Blob.reads_unlessDefault [DecidableEq α] (b : Blob α) (set : M → α → M)
    {default value : α} (hl : (b.toBytes value).length < 2 ^ 64)
    (ht : ValidTag tag := by decide) (hd : set m default = m := by rfl)
    (hs : ∀ buf, mergeField m tag .lengthDelimited buf =
      b.merge (set m) .lengthDelimited buf := by exact fun _ => rfl) :
    Reads (nextField mergeField) m (unlessDefault default value (b.encode tag)) (set m value) :=
  .unlessDefault hd (b.reads _ value ht hl hs)

theorem Blob.length_encode (b : Blob α) (a : α) (ht : ValidTag tag) :
    (b.encode tag a).length = b.encodedLen tag a := length_delimited _ rfl ht

theorem length_optionally {write : α → List UInt8} {len : α → Nat}
    (h : ∀ a, (write a).length = len a) (value : Option α) :
    (optionally value write).length = optionalLen value len := by
  cases value with
  | none => rfl
  | some a => exact h a

theorem length_unlessDefault [DecidableEq α] {write : α → List UInt8} {len : α → Nat}
    (h : ∀ a, (write a).length = len a) (default value : α) :
    (unlessDefault default value write).length = defaultLen default value len := by
  unfold unlessDefault defaultLen
  split
  · rfl
  · exact h value

theorem length_unlessDefault_le [DecidableEq α] (default value : α) (write : α → List UInt8) :
    (unlessDefault default value write).length ≤ (write value).length := by
  unfold unlessDefault
  split
  · exact Nat.zero_le _
  · exact le_refl _

theorem Scalar.length_optionally (s : Scalar α) (value : Option α) (ht : ValidTag tag) :
    (optionally value (s.encode tag)).length = optionalLen value (s.encodedLen tag) :=
  Lib.length_optionally (fun a => s.length_encode a ht) value

theorem Scalar.length_unlessDefault [DecidableEq α] (s : Scalar α) (default value : α)
    (ht : ValidTag tag) :
    (unlessDefault default value (s.encode tag)).length =
      defaultLen default value (s.encodedLen tag) :=
  Lib.length_unlessDefault (fun a => s.length_encode a ht) default value

theorem Blob.length_optionally (b : Blob α) (value : Option α) (ht : ValidTag tag) :
    (optionally value (b.encode tag)).length = optionalLen value (b.encodedLen tag) :=
  Lib.length_optionally (fun a => b.length_encode a ht) value

theorem Blob.length_unlessDefault [DecidableEq α] (b : Blob α) (default value : α)
    (ht : ValidTag tag) :
    (unlessDefault default value (b.encode tag)).length =
      defaultLen default value (b.encodedLen tag) :=
  Lib.length_unlessDefault (fun a => b.length_encode a ht) default value

theorem Blob.length_le_encode (b : Blob α) (tag : Nat) (a : α) :
    (b.toBytes a).length ≤ (b.encode tag a).length := length_le_delimited ..

theorem Blob.length_le_optionally (b : Blob α) (tag : Nat) (value : Option α) :
    ∀ a ∈ value, (b.toBytes a).length ≤ (optionally value (b.encode tag)).length := by
  rintro a rfl
  exact b.length_le_encode tag a

theorem Blob.length_le_unlessDefault [DecidableEq α] (b : Blob α) (tag : Nat) (default : α)
    (hd : b.toBytes default = []) (value : α) :
    (b.toBytes value).length ≤ (unlessDefault default value (b.encode tag)).length := by
  unfold unlessDefault
  split
  · rename_i heq
    simp [heq, hd]
  · exact b.length_le_encode tag value

theorem mergeMessage_reads {merge : MergeField M} {depth : Nat} {raw : List UInt8}
    (hr : Reads (nextField (merge depth)) m raw m') (hl : raw.length < 2 ^ 64)
    (rest : List UInt8) :
    mergeMessage merge (depth + 1) m .lengthDelimited
      (Varint.encode raw.length.toUInt64 ++ (raw ++ rest)) = .ok (m', rest) := by
  have hm : ¬(raw ++ rest).length < raw.length.toUInt64.toNat := by
    rw [toNat_length hl, length_append]
    omega
  have hli : (raw ++ rest).length - raw.length.toUInt64.toNat = rest.length := by
    rw [toNat_length hl, length_append]
    omega
  have hf : raw.length ≤ (raw ++ rest).length := by simp
  have hlo := hr.readWhile rest hf
  simp only [mergeMessage, checkWireType, Varint.decode_encode, bind, Except.bind, if_true,
    Nat.add_one_ne_zero, if_false, hm, hli, Nat.add_sub_cancel, hlo]

theorem skip_varint (depth : Nat) (v : UInt64) (rest : List UInt8) :
    skip (depth + 1) .varint tag (Varint.encode v ++ rest) = .ok rest := by
  rw [skip, skipField]
  simp [Except.map]

theorem skip_delimited (depth : Nat) {payload : List UInt8} (hl : payload.length < 2 ^ 64)
    (rest : List UInt8) :
    skip (depth + 1) .lengthDelimited tag
      (Varint.encode payload.length.toUInt64 ++ (payload ++ rest)) = .ok rest := by
  rw [skip, skipField, if_neg (Nat.add_one_ne_zero _)]
  simp only [Varint.decode_encode, bind, Except.bind, toNat_length hl, advance]
  rw [if_neg (by simp), drop_left]

end AqEngine.Lib
