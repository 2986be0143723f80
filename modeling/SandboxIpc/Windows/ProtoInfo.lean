import SandboxIpc.Infra.Codec
import SandboxIpc.Windows.Reading

/-!
# The protocol information of a socket, `WsaProtoInfo`

What `WSADuplicateSocketW` fills in goes over the channel field by field, and `WSASocketW` is called
with what is read. The fields are read one after the other, the text by a visitor of the crate.

* `Fields` — a `WsaProtoInfo` with its fields, `serialize` and `deserialize`
* `AVisitor.visitFrom` — the visitor, on any sequence
* `visitFrom_of_yields`, `visitFrom_of_ended` — it takes the elements in order, and names the place
  of the first one that is missing
* `Fields.format` — what is read is what was written, and every byte counts
* `equivFields` — a `WsaProtoInfo` with its fields is the same as one by its bytes
* `deserialize_socket_fields` — the receiver opens its socket with the fields of the sender
-/

namespace SandboxIpc.Windows

open Infra

abbrev DWORD := BitVec 32

/-- `c_int`. -/
abbrev CInt := BitVec 32

abbrev WCHAR := BitVec 16

structure GUID where
  Data1 : BitVec 32
  Data2 : BitVec 16
  Data3 : BitVec 16
  Data4 : List.Vector (BitVec 8) 8

structure WsaProtocolChain where
  ChainLen : CInt
  ChainEntries : List.Vector DWORD 7

/-- `WsaProtoInfo` with its fields. -/
structure WsaProtoInfo.Fields where
  dwServiceFlags1 : DWORD
  dwServiceFlags2 : DWORD
  dwServiceFlags3 : DWORD
  dwServiceFlags4 : DWORD
  dwProviderFlags : DWORD
  ProviderId : GUID
  dwCatalogEntryId : DWORD
  ProtocolChain : WsaProtocolChain
  iVersion : CInt
  iAddressFamily : CInt
  iMaxSockAddr : CInt
  iMinSockAddr : CInt
  iSocketType : CInt
  iProtocol : CInt
  iProtocolMaxOffset : CInt
  iNetworkByteOrder : CInt
  iSecurityScheme : CInt
  dwMessageSize : DWORD
  dwProviderReserved : DWORD
  szProtocol : List.Vector WCHAR 256

/-! ## The visitor of `serde_wchar256` -/

def AVisitor.expecting : String := "WCHAR string of length 256"

/-- The text of `Error::invalid_length`. -/
def invalidLength (len : Nat) : String :=
  "invalid length " ++ toString len ++ ", expected " ++ AVisitor.expecting

section Visitor

variable {σ : Type} (nextElement : StateT σ (Except String) (Option WCHAR))

/-- The loop of `visit_seq`, with `n` places of the buffer left, the first of them `i`. -/
def AVisitor.visitFrom : (n i : Nat) → StateT σ (Except String) (List.Vector WCHAR n)
  | 0, _ => return .nil
  | n + 1, i => do
    match ← nextElement with
    | none => throw (invalidLength i)
    | some readC => return readC ::ᵥ (← visitFrom n (i + 1))

def AVisitor.visitSeq : StateT σ (Except String) (List.Vector WCHAR 256) :=
  AVisitor.visitFrom nextElement 256 0

/-- What a sequence has next, one element after the other. -/
inductive Yields : σ → List WCHAR → σ → Prop
  | nil (s : σ) : Yields s [] s
  | cons {s s' s'' : σ} {c : WCHAR} {cs : List WCHAR} :
    nextElement s = .ok (some c, s') → Yields s' cs s'' → Yields s (c :: cs) s''

variable {nextElement}

theorem visitFrom_some {s s' : σ} {c : WCHAR} (h : nextElement s = .ok (some c, s')) (n i : Nat) :
    AVisitor.visitFrom nextElement (n + 1) i s
      = (AVisitor.visitFrom nextElement n (i + 1) s').map fun read => (c ::ᵥ read.1, read.2) := by
  rw [AVisitor.visitFrom]
  simp only [bind, StateT.bind, Except.bind, h]
  cases AVisitor.visitFrom nextElement n (i + 1) s' <;> rfl

theorem visitFrom_none {s s' : σ} (h : nextElement s = .ok (none, s')) {n : Nat} (hn : 0 < n)
    (i : Nat) : AVisitor.visitFrom nextElement n i s = .error (invalidLength i) := by
  obtain ⟨n, rfl⟩ := Nat.exists_eq_add_one_of_ne_zero hn.ne'
  rw [AVisitor.visitFrom]
  simp only [bind, StateT.bind, Except.bind, h]
  rfl

theorem visitFrom_error {s : σ} {message : String} (h : nextElement s = .error message) {n : Nat}
    (hn : 0 < n) (i : Nat) : AVisitor.visitFrom nextElement n i s = .error message := by
  obtain ⟨n, rfl⟩ := Nat.exists_eq_add_one_of_ne_zero hn.ne'
  rw [AVisitor.visitFrom]
  simp only [bind, StateT.bind, Except.bind, h]

/-- The visitor takes the elements in order, and nothing after them. -/
theorem visitFrom_of_yields {n : Nat} {v : List.Vector WCHAR n} {s s' : σ}
    (h : Yields nextElement s v.toList s') (i : Nat) :
    AVisitor.visitFrom nextElement n i s = .ok (v, s') := by
  induction v using List.Vector.inductionOn generalizing s i with
  | nil =>
    cases h
    rfl
  | cons ih =>
    rw [List.Vector.toList_cons] at h
    cases h with
    | cons hnext hrest =>
      rw [visitFrom_some hnext, ih hrest]
      rfl

/-- The place of the first element that is missing is named. -/
theorem visitFrom_of_ended {s s' s'' : σ} {cs : List WCHAR} (h : Yields nextElement s cs s')
    (hend : nextElement s' = .ok (none, s'')) {n : Nat} (hn : cs.length < n) (i : Nat) :
    AVisitor.visitFrom nextElement n i s = .error (invalidLength (i + cs.length)) := by
  induction h generalizing n i with
  | nil s => exact visitFrom_none hend hn i
  | @cons s s' s'' c cs hnext _ ih =>
    obtain ⟨n, rfl⟩ := Nat.exists_eq_add_one_of_ne_zero (Nat.ne_zero_of_lt hn)
    have hplace : i + (c :: cs).length = i + 1 + cs.length := by
      rw [List.length_cons]
      omega
    rw [visitFrom_some hnext, ih hend (Nat.lt_of_succ_lt_succ hn), hplace]
    rfl

/-- An error of the sequence is handed on. -/
theorem visitFrom_of_failed {s s' : σ} {cs : List WCHAR} (h : Yields nextElement s cs s')
    {message : String} (herror : nextElement s' = .error message) {n : Nat} (hn : cs.length < n)
    (i : Nat) : AVisitor.visitFrom nextElement n i s = .error message := by
  induction h generalizing n i with
  | nil s => exact visitFrom_error herror hn i
  | cons hnext _ ih =>
    obtain ⟨n, rfl⟩ := Nat.exists_eq_add_one_of_ne_zero (Nat.ne_zero_of_lt hn)
    rw [visitFrom_some hnext, ih herror (Nat.lt_of_succ_lt_succ hn)]
    rfl

end Visitor

/-! ## Reading with bincode -/

variable [Bincode]

/-- `deserialize_tuple`. -/
def deserializeTuple {R : Type} (len : Nat)
    (visitor : StateT Bincode.Access (Except String) R) : Reads String R := fun bytes =>
  match visitor (Bincode.access len bytes) with
  | .error message => .error message
  | .ok (value, access) => .ok (value, Bincode.remaining access)

/-- Over bincode the visitor reads its elements one after the other: the sequence does not end
before it has them all. -/
theorem deserializeTuple_visitFrom (n i : Nat) :
    deserializeTuple n (AVisitor.visitFrom (Bincode.nextElement Bincode.u16) n i)
      = (Bincode.u16.vector n).read := by
  induction n generalizing i with
  | zero =>
    funext bytes
    unfold deserializeTuple AVisitor.visitFrom
    exact congrArg (fun rest => Except.ok (List.Vector.nil, rest)) (Bincode.remaining_access 0 bytes)
  | succ n ih =>
    funext bytes
    have hih := congrFun (ih (i + 1))
    have hvector : (Bincode.u16.vector (n + 1)).read bytes = (do
        let x ← (Bincode.u16.pair (Bincode.u16.vector n)).read
        return x.1 ::ᵥ x.2 : Reads String _) bytes := rfl
    rw [hvector]
    unfold deserializeTuple at hih ⊢
    cases hread : Bincode.u16.read bytes with
    | error message =>
      rw [visitFrom_error (Bincode.nextElement_error Bincode.u16 n hread) n.succ_pos]
      simp only [Codec.pair, bind, StateT.bind, Except.bind, hread]
    | ok read =>
      obtain ⟨c, rest⟩ := read
      rw [visitFrom_some (Bincode.nextElement_ok Bincode.u16 n hread)]
      simp only [Codec.pair, bind, StateT.bind, Except.bind, hread, ← hih rest]
      cases AVisitor.visitFrom (Bincode.nextElement Bincode.u16) n (i + 1) (Bincode.access n rest) <;>
        rfl

/-! ## The fields, one after the other -/

open Bincode

/-- An array, as serde writes it: its elements and nothing else. -/
def serializeTuple {α : Type} (c : Codec Bincode.short α) {n : Nat} (v : List.Vector α n) : List UInt8 :=
  v.toList.flatMap c.encode

theorem serializeTuple_eq {α : Type} (c : Codec Bincode.short α) {n : Nat} (v : List.Vector α n) :
    serializeTuple c v = (c.vector n).encode v := (c.encode_vector v).symm

namespace serdeGuid

def serialize (f : GUID) : List UInt8 :=
  u32.encode f.Data1 ++ u16.encode f.Data2 ++ u16.encode f.Data3 ++ serializeTuple u8 f.Data4

def deserialize : Reads String GUID := do
  let data1 ← u32.read
  let data2 ← u16.read
  let data3 ← u16.read
  let data4 ← (u8.vector 8).read
  return ⟨data1, data2, data3, data4⟩

/-- The format of a `GUID`. -/
def codec : Codec short GUID :=
  (u32.pair (u16.pair (u16.pair (u8.vector 8)))).iso
    { toFun := fun x => ⟨x.1, x.2.1, x.2.2.1, x.2.2.2⟩
      invFun := fun f => (f.Data1, f.Data2, f.Data3, f.Data4)
      left_inv := fun _ => rfl
      right_inv := fun _ => rfl }

theorem read_codec : codec.read = deserialize := by
  simp only [codec, Codec.iso, Codec.pair, bind_assoc, pure_bind]
  rfl

theorem encode_codec (f : GUID) : codec.encode f = serialize f := by
  simp only [serialize, serializeTuple_eq, List.append_assoc]
  rfl

end serdeGuid

namespace WsaProtocolChain

def serialize (f : WsaProtocolChain) : List UInt8 :=
  u32.encode f.ChainLen ++ serializeTuple u32 f.ChainEntries

def deserialize : Reads String WsaProtocolChain := do
  let chainLen ← u32.read
  let chainEntries ← (u32.vector 7).read
  return ⟨chainLen, chainEntries⟩

/-- The format of a `WsaProtocolChain`. -/
def codec : Codec short WsaProtocolChain :=
  (u32.pair (u32.vector 7)).iso
    { toFun := fun x => ⟨x.1, x.2⟩
      invFun := fun f => (f.ChainLen, f.ChainEntries)
      left_inv := fun _ => rfl
      right_inv := fun _ => rfl }

theorem read_codec : codec.read = deserialize := by
  simp only [codec, Codec.iso, Codec.pair, bind_assoc, pure_bind]
  rfl

theorem encode_codec (f : WsaProtocolChain) : codec.encode f = f.serialize := by
  simp only [serialize, serializeTuple_eq]
  rfl

end WsaProtocolChain

namespace serdeWchar256

def serialize (f : List.Vector WCHAR 256) : List UInt8 := serializeTuple u16 f

def deserialize : Reads String (List.Vector WCHAR 256) :=
  deserializeTuple 256 (AVisitor.visitSeq (nextElement u16))

end serdeWchar256

namespace WsaProtoInfo.Fields

def serialize (f : Fields) : List UInt8 :=
  u32.encode f.dwServiceFlags1 ++ u32.encode f.dwServiceFlags2 ++ u32.encode f.dwServiceFlags3 ++
    u32.encode f.dwServiceFlags4 ++ u32.encode f.dwProviderFlags ++
    serdeGuid.serialize f.ProviderId ++ u32.encode f.dwCatalogEntryId ++
    f.ProtocolChain.serialize ++ u32.encode f.iVersion ++ u32.encode f.iAddressFamily ++
    u32.encode f.iMaxSockAddr ++ u32.encode f.iMinSockAddr ++ u32.encode f.iSocketType ++
    u32.encode f.iProtocol ++ u32.encode f.iProtocolMaxOffset ++ u32.encode f.iNetworkByteOrder ++
    u32.encode f.iSecurityScheme ++ u32.encode f.dwMessageSize ++ u32.encode f.dwProviderReserved ++
    serdeWchar256.serialize f.szProtocol

def deserialize : Reads String Fields := do
  let dwServiceFlags1 ← u32.read
  let dwServiceFlags2 ← u32.read
  let dwServiceFlags3 ← u32.read
  let dwServiceFlags4 ← u32.read
  let dwProviderFlags ← u32.read
  let ProviderId ← serdeGuid.deserialize
  let dwCatalogEntryId ← u32.read
  let ProtocolChain ← WsaProtocolChain.deserialize
  let iVersion ← u32.read
  let iAddressFamily ← u32.read
  let iMaxSockAddr ← u32.read
  let iMinSockAddr ← u32.read
  let iSocketType ← u32.read
  let iProtocol ← u32.read
  let iProtocolMaxOffset ← u32.read
  let iNetworkByteOrder ← u32.read
  let iSecurityScheme ← u32.read
  let dwMessageSize ← u32.read
  let dwProviderReserved ← u32.read
  let szProtocol ← serdeWchar256.deserialize
  return { dwServiceFlags1, dwServiceFlags2, dwServiceFlags3, dwServiceFlags4, dwProviderFlags,
           ProviderId, dwCatalogEntryId, ProtocolChain, iVersion, iAddressFamily, iMaxSockAddr,
           iMinSockAddr, iSocketType, iProtocol, iProtocolMaxOffset, iNetworkByteOrder,
           iSecurityScheme, dwMessageSize, dwProviderReserved, szProtocol }

/-- The format of a `WsaProtoInfo`, in three groups of fields. -/
def codec : Codec short Fields :=
  (u32.pair <| u32.pair <| u32.pair <| u32.pair <| u32.pair <| serdeGuid.codec.pair <| u32.pair <|
    WsaProtocolChain.codec.pair <| u32.pair <| u32.pair <| u32.pair <| u32.pair <| u32.pair <|
    u32.pair <| u32.pair <| u32.pair <| u32.pair <| u32.pair <| u32.pair <| u16.vector 256).iso
    { toFun := fun ⟨a, b, c, d, e, f, g, h, i, j, k, l, m, n, o, p, q, r, s, t⟩ =>
        ⟨a, b, c, d, e, f, g, h, i, j, k, l, m, n, o, p, q, r, s, t⟩
      invFun := fun ⟨a, b, c, d, e, f, g, h, i, j, k, l, m, n, o, p, q, r, s, t⟩ =>
        ⟨a, b, c, d, e, f, g, h, i, j, k, l, m, n, o, p, q, r, s, t⟩
      left_inv := fun _ => rfl
      right_inv := fun _ => rfl }

theorem width_codec : codec.width = 628 := by
  simp only [codec, serdeGuid.codec, WsaProtocolChain.codec, Codec.width_iso, Codec.width_pair,
    Codec.width_vector, width_u8, width_u16, width_u32]

theorem read_codec : codec.read = deserialize := by
  have htext : serdeWchar256.deserialize = (u16.vector 256).read :=
    deserializeTuple_visitFrom 256 0
  simp only [deserialize, htext, ← serdeGuid.read_codec, ← WsaProtocolChain.read_codec]
  simp only [codec, Codec.iso, Codec.pair, bind_assoc, pure_bind]
  rfl

theorem encode_codec (f : Fields) : codec.encode f = f.serialize := by
  unfold serialize serdeWchar256.serialize
  simp only [serializeTuple_eq, ← serdeGuid.encode_codec, ← WsaProtocolChain.encode_codec,
    List.append_assoc]
  simp only [codec, Codec.encode_iso, Equiv.coe_fn_symm_mk, Codec.encode_pair]

theorem length_serialize (f : Fields) : f.serialize.length = 628 := by
  rw [← encode_codec, codec.length_encode, width_codec]

/--
The format of a `WsaProtoInfo`.

What is read of some bytes is what has to be written to get these bytes, up to what is left of them.
Only bytes that are too few are refused, and always with the same error: the visitor of the text
never finds its sequence too short.
-/
theorem format (bytes : List UInt8) :
    (∀ f rest, deserialize bytes = .ok (f, rest) ↔ bytes = f.serialize ++ rest) ∧
      ∀ message, deserialize bytes = .error message ↔ bytes.length < 628 ∧ message = short := by
  refine ⟨fun f rest => ?_, fun message => ?_⟩
  · rw [← read_codec, ← encode_codec]
    exact codec.read_eq_ok_iff
  · rw [← read_codec, ← width_codec]
    exact codec.read_eq_error_iff

/-- A `WsaProtoInfo` as it is on its way. -/
def pack (f : Fields) : WsaProtoInfo := ⟨f.serialize, f.length_serialize⟩

end WsaProtoInfo.Fields

/-- The fields that were written. -/
def WsaProtoInfo.fields (info : WsaProtoInfo) : WsaProtoInfo.Fields :=
  Fields.codec.decode info.bytes (info.length_bytes.trans Fields.width_codec.symm)

theorem serialize_fields (info : WsaProtoInfo) : info.fields.serialize = info.bytes := by
  rw [← WsaProtoInfo.Fields.encode_codec, WsaProtoInfo.fields, Codec.encode_decode]

/-- Nothing is lost by keeping the bytes only. -/
def WsaProtoInfo.equivFields : WsaProtoInfo ≃ WsaProtoInfo.Fields where
  toFun := WsaProtoInfo.fields
  invFun := WsaProtoInfo.Fields.pack
  left_inv info := by
    obtain ⟨bytes, hlength⟩ := info
    have hbytes := serialize_fields ⟨bytes, hlength⟩
    unfold WsaProtoInfo.Fields.pack
    simp only [hbytes]
  right_inv f := by
    apply WsaProtoInfo.Fields.codec.encode_injective
    rw [WsaProtoInfo.Fields.encode_codec, WsaProtoInfo.Fields.encode_codec, serialize_fields]
    rfl

/-! ## The socket at the other end -/

section Socket

variable {R : Type}
  (wsaSocketW : CInt → CInt → CInt → WsaProtoInfo.Fields → Except IoError RawSocket)

/-- The `deserialize` of `SendableSocket` on a channel, with the arguments of `WSASocketW`. -/
def SendableSocket.deserializeFields (bytes : List UInt8)
    (next : WsaProtoInfo.Fields → RawSocket → List UInt8 → Building R) : Building R :=
  match WsaProtoInfo.Fields.deserialize bytes with
  | .error message => .fail (.error message)
  | .ok (protoInfo, bytes) =>
    match wsaSocketW protoInfo.iAddressFamily protoInfo.iSocketType protoInfo.iProtocol protoInfo with
    | .error e => .fail (.error e.display)
    | .ok socket => next protoInfo socket bytes

/-- The answer of `WSASocketW`, by the bytes of the protocol information. -/
def opening (info : WsaProtoInfo) : Except IoError RawSocket :=
  wsaSocketW info.fields.iAddressFamily info.fields.iSocketType info.fields.iProtocol info.fields

/-- The receiver opens its socket with the fields of the sender. -/
theorem deserialize_socket_fields (bytes : List UInt8)
    (next : WsaProtoInfo.Fields → RawSocket → List UInt8 → Building R) :
    SendableSocket.deserialize (opening wsaSocketW) bytes
        (fun info socket rest => next info.fields socket rest)
      = SendableSocket.deserializeFields wsaSocketW bytes next := by
  obtain ⟨hok, herror⟩ := WsaProtoInfo.Fields.format bytes
  rcases Nat.lt_or_ge bytes.length 628 with hlt | hle
  · have hshort : (bytes.take 628).length ≠ 628 := by
      rw [List.length_take]
      omega
    unfold SendableSocket.deserialize SendableSocket.deserializeFields
    rw [dif_neg hshort, (herror short).mpr ⟨hlt, rfl⟩]
  · have hwhole : (bytes.take 628).length = 628 := List.length_take_of_le hle
    have hread : WsaProtoInfo.Fields.deserialize bytes
        = .ok ((⟨bytes.take 628, hwhole⟩ : WsaProtoInfo).fields, bytes.drop 628) := by
      rw [hok, serialize_fields, List.take_append_drop]
    unfold SendableSocket.deserialize SendableSocket.deserializeFields
    rw [dif_pos hwhole, hread]
    rfl

end Socket

end SandboxIpc.Windows
