import InstrumentBus.Proofs.Signal.Canonical
import InstrumentBus.Proofs.Signal.Script
import InstrumentBus.Signal.Request

/-!
# Reads that are all or nothing

Whatever is asked of a reader, and whichever requests fail, it stands inside its buffer, and what
it has not passed is the rest of it. A read yields the value that the bytes ahead say and passes
exactly these, or it changes nothing.
-/

namespace InstrumentBus
namespace Signal

open Numeric Wire

namespace Template

def size : Template → Nat
  | .byte => 1
  | .half => 2
  | .word | .signedWord | .fixed _ => wordSize
  | .bytes length => length
  | .header | .headerAhead => headerSize
  | .payload held => held.size

def passed : Template → Nat
  | .headerAhead => 0
  | t => t.size

theorem passed_le_size (t : Template) : t.passed ≤ t.size := by
  cases t with
  | headerAhead => exact Nat.zero_le _
  | _ => exact Nat.le_refl _

/-- A read of bytes or of one number, and not of a header or a payload. -/
def Primitive : Template → Prop
  | .header | .headerAhead | .payload _ => False
  | _ => True

/-- The length in front of a byte string is the length held. -/
def Announced : Template → List UInt8 → Prop
  | .payload held, ahead => held.kind.Announced ahead
  | _, _ => True

/-- Bytes and the value they say to whoever expects it. A fixed-point value is the multiple of the
resolution held, and a byte string has the length held. -/
inductive Says : Template → List UInt8 → Field → Prop where
  | byte (b : UInt8) : Says .byte [b] (.byte b)
  | half (n : UInt16) : Says .half (Field.half n).image (.half n)
  | word (n : UInt32) : Says .word (wordImage n) (.word n)
  | signedWord {n : Int} (hleast : -0x80000000 ≤ n) (hgreatest : n < 0x80000000) :
      Says .signedWord (wordImage (wordOf n)) (.signedWord n)
  | bytes (content : List UInt8) : Says (.bytes content.length) content (.bytes content)
  | fixed (target : FixedPoint) (raw : UInt32) :
      Says (.fixed target) (wordImage raw)
        (.fixed ⟨target.resolution, latticePoint target.resolution raw⟩)
  | header (h : Header) : Says .header (Field.header h).image (.header h)
  | headerAhead (h : Header) : Says .headerAhead (Field.header h).image (.header h)
  | scaled (held : FixedPoint) (raw : UInt32) :
      Says (.payload (.scaled held)) (wordImage raw)
        (.payload (.scaled ⟨held.resolution, latticePoint held.resolution raw⟩))
  | integer (held n : UInt32) :
      Says (.payload (.integer held)) (wordImage n) (.payload (.integer n))
  | buffer {held content : List UInt8} (hlength : content.length = held.length)
      (hfits : content.length ≤ lengthLimit) :
      Says (.payload (.buffer held)) (Payload.buffer content).image (.payload (.buffer content))

end Template

section Words

variable {bytes : List UInt8}

theorem wordBytes32_eq_image (n : UInt32) : wordBytes32 n = wordImage n := wordBytes32_eq n

theorem exists_word (h : bytes.length = wordSize) : ∃ n, bytes = wordImage n := by
  have hword : 0 + 4 ≤ bytes.length := Nat.le_of_eq h.symm
  have hall : (bytes.drop 0).take 4 = bytes := List.take_of_length_le (Nat.le_of_eq h)
  have hback := wordBytes32_wordAt hword
  rw [wordBytes32_eq_image, hall] at hback
  exact ⟨_, hback.symm⟩

theorem exists_half (h : bytes.length = 2) : ∃ n : UInt16, bytes = (Field.half n).image := by
  have hhalf : 0 + 2 ≤ bytes.length := Nat.le_of_eq h.symm
  have hall : (bytes.drop 0).take 2 = bytes := List.take_of_length_le (Nat.le_of_eq h)
  have hback := halfBytes_halfAt hhalf
  rw [halfBytes_eq, hall] at hback
  exact ⟨_, hback.symm⟩

theorem exists_header (h : bytes.length = headerSize) :
    ∃ header : Header, bytes = (Field.header header).image := by
  have hback := Header.bytes_ofBytes (Nat.le_of_eq h.symm)
  rw [List.take_of_length_le (Nat.le_of_eq h)] at hback
  exact ⟨_, hback.symm.trans (Field.encoding_eq_image (.header _))⟩

theorem exists_string {length : Nat} (h : bytes.length = wordSize + length)
    (hannounced : (wordAt bytes 0).toNat = length) :
    ∃ content : List UInt8, content.length = length ∧ bytes = (Payload.buffer content).image := by
  have hword : (bytes.take wordSize).length = wordSize := by
    rw [List.length_take, h]
    exact Nat.min_eq_left (Nat.le_add_right _ _)
  have hcontent : (bytes.drop wordSize).length = length := by
    rw [List.length_drop, h, Nat.add_sub_cancel_left]
  obtain ⟨n, hn⟩ := exists_word hword
  have hbytes : bytes = wordImage n ++ bytes.drop wordSize := by
    rw [← hn, List.take_append_drop]
  have hfirst : wordAt bytes 0 = n := by
    rw [hbytes, ← wordBytes32_eq_image, wordAt_append]
  have hlength : UInt32.ofNat (bytes.drop wordSize).length = n := by
    rw [hcontent, ← hannounced, hfirst, UInt32.ofNat_toNat]
  refine ⟨bytes.drop wordSize, hcontent, ?_⟩
  rw [Payload.image, hlength]
  exact hbytes

theorem Kind.extent_le_of_announced {k : Kind} (h : k.Announced bytes) : k.extent ≤ sizeLimit := by
  cases k with
  | scaled resolution => exact (by decide : wordSize ≤ sizeLimit)
  | integer => exact (by decide : wordSize ≤ sizeLimit)
  | buffer length =>
    have hlt := (wordAt bytes 0).toNat_lt
    have hlength : (wordAt bytes 0).toNat = length := h
    simp only [Kind.extent, wordSize, sizeLimit]
    omega

end Words

/-- A field that is no fixed-point value, which arrives as it was sent. -/
def Field.Exact : Field → Prop
  | .fixed _ | .payload (.scaled _) => False
  | _ => True

theorem Field.Carried.eq_of_exact {f g : Field} (h : Field.Carried f g) (hf : f.Exact) :
    g = f := by
  cases h with
  | fixed h => exact hf.elim
  | payload h =>
    cases h with
    | scaled h => exact hf.elim
    | integer n => rfl
    | buffer bytes => rfl
  | _ => rfl

namespace Template

variable {t : Template} {f : Field} {r : Reader} {bytes rest : List UInt8} {value : Field}

theorem For.read_eq (ht : t.For f) (hf : f.Sound) (hexact : f.Exact)
    (hr : r.remaining = f.image ++ rest) : Field.read t r = .ok (f, r.advance f.size) := by
  rw [← Field.encoding_eq_image] at hr
  obtain ⟨g, hread, hcarried⟩ := Field.read_encoding ht hf hr
  rw [hread, hcarried.eq_of_exact hexact, Field.length_encoding hf]

theorem word_of_image {n : UInt32} (hr : r.remaining = wordImage n ++ rest) :
    r.word = .ok (n, r.advance wordSize) := by
  rw [← wordBytes32_eq_image] at hr
  exact Field.word_of_append hr

theorem fixed_of_image {raw : UInt32} (held : FixedPoint)
    (hr : r.remaining = wordImage raw ++ rest) :
    r.fixed held = .ok (⟨held.resolution, latticePoint held.resolution raw⟩,
      r.advance wordSize) := by
  rw [Reader.fixed, word_of_image hr]
  rfl

theorem header_of_image {h : Header} (hr : r.remaining = (Field.header h).image ++ rest) :
    Header.read r = .ok (h, r.advance headerSize) := by
  rw [← Field.encoding_eq_image] at hr
  have hbytes : r.remaining = h.bytes ++ rest := hr
  have hroom : headerSize ≤ r.available := by
    rw [← r.length_remaining, hbytes, List.length_append, h.length_bytes]
    exact Nat.le_add_right _ _
  rw [Header.read_of_le hroom, hbytes, h.ofBytes_append]

theorem Says.read_eq (h : t.Says bytes value) (hr : r.remaining = bytes ++ rest) :
    Field.read t r = .ok (value, r.advance t.passed) := by
  cases h with
  | byte b => exact For.read_eq (.byte b) trivial trivial hr
  | half n => exact For.read_eq (.half n) trivial trivial hr
  | word n => exact For.read_eq (.word n) trivial trivial hr
  | signedWord hleast hgreatest =>
    exact For.read_eq (.signedWord _) ⟨hleast, hgreatest⟩ trivial hr
  | bytes => exact For.read_eq (.bytes _) trivial trivial hr
  | fixed target raw =>
    rw [Field.read, fixed_of_image target hr]
    rfl
  | header h =>
    rw [Field.read, header_of_image hr]
    rfl
  | headerAhead h =>
    rw [Field.read, Header.peek, header_of_image hr]
    rfl
  | scaled held raw =>
    rw [Field.read, Payload.read, fixed_of_image held hr]
    rfl
  | integer held n =>
    rw [Field.read, Payload.read, word_of_image hr]
    rfl
  | @buffer held content hlength hfits =>
    have hkind : (Payload.buffer held).kind = (Payload.buffer content).kind :=
      congrArg Kind.buffer hlength.symm
    have hsize : (Template.payload (.buffer held)).passed = (Payload.buffer content).kind.size :=
      congrArg Kind.size hkind
    rw [hsize]
    exact For.read_eq (.payload hkind) hfits trivial hr

theorem Says.unique {other : Field} (h : t.Says bytes value) (hother : t.Says bytes other) :
    other = value := by
  have hbytes : (Reader.ofBytes bytes).remaining = bytes ++ [] := (List.append_nil bytes).symm
  cases (hother.read_eq hbytes).symm.trans (h.read_eq hbytes)
  rfl

/-- As many bytes as a read needs say a value, if they announce the length it expects. -/
theorem exists_value (hlength : bytes.length = t.size) (hannounced : t.Announced bytes) :
    ∃ value, t.Says bytes value := by
  cases t with
  | byte =>
    obtain ⟨b, rfl⟩ := List.length_eq_one_iff.1 hlength
    exact ⟨_, .byte b⟩
  | half =>
    obtain ⟨n, rfl⟩ := exists_half hlength
    exact ⟨_, .half n⟩
  | word =>
    obtain ⟨n, rfl⟩ := exists_word hlength
    exact ⟨_, .word n⟩
  | signedWord =>
    obtain ⟨n, rfl⟩ := exists_word hlength
    obtain ⟨hleast, hgreatest⟩ := signedValue_mem n
    have hsaid := Says.signedWord hleast hgreatest
    rw [wordOf_signedValue] at hsaid
    exact ⟨_, hsaid⟩
  | bytes length =>
    have hcontent : bytes.length = length := hlength
    subst hcontent
    exact ⟨_, .bytes bytes⟩
  | fixed target =>
    obtain ⟨raw, rfl⟩ := exists_word hlength
    exact ⟨_, .fixed target raw⟩
  | header =>
    obtain ⟨h, rfl⟩ := exists_header hlength
    exact ⟨_, .header h⟩
  | headerAhead =>
    obtain ⟨h, rfl⟩ := exists_header hlength
    exact ⟨_, .headerAhead h⟩
  | payload held =>
    cases held with
    | scaled held =>
      obtain ⟨raw, rfl⟩ := exists_word hlength
      exact ⟨_, .scaled held raw⟩
    | integer held =>
      obtain ⟨n, rfl⟩ := exists_word hlength
      exact ⟨_, .integer held n⟩
    | buffer held =>
      have hstring : (Kind.buffer held.length).Announced bytes := hannounced
      have hextent := Kind.size_eq_extent (Kind.extent_le_of_announced hstring)
      have hfits : held.length ≤ lengthLimit := by
        have hlt := (wordAt bytes 0).toNat_lt
        have hequal : (wordAt bytes 0).toNat = held.length := hannounced
        simp only [lengthLimit]
        omega
      obtain ⟨content, hcontent, rfl⟩ := exists_string (hlength.trans hextent) hannounced
      exact ⟨_, .buffer hcontent (hcontent ▸ hfits)⟩

theorem read_of_lt (ht : t.Primitive) (h : r.available < t.size) :
    Field.read t r = .error (.wire (.underrun t.size r.available)) := by
  cases t with
  | byte =>
    have hcut : ¬ 1 ≤ r.available := Nat.not_le_of_lt h
    rw [Field.read, Reader.byte_eq, if_neg hcut]
    rfl
  | half =>
    have hcut : ¬ 2 ≤ r.available := Nat.not_le_of_lt h
    rw [Field.read, Reader.half_eq, if_neg hcut]
    rfl
  | word =>
    have hcut : ¬ 4 ≤ r.available := Nat.not_le_of_lt h
    rw [Field.read, Reader.word_eq, if_neg hcut]
    rfl
  | signedWord =>
    have hcut : ¬ 4 ≤ r.available := Nat.not_le_of_lt h
    rw [Field.read, Reader.signedWord, Reader.word_eq, if_neg hcut]
    rfl
  | bytes length =>
    have hcut : ¬ length ≤ r.available := Nat.not_le_of_lt h
    rw [Field.read, Reader.bytes, if_neg hcut]
    rfl
  | fixed target =>
    have hcut : ¬ 4 ≤ r.available := Nat.not_le_of_lt h
    rw [Field.read, Reader.fixed, Reader.word_eq, if_neg hcut]
    rfl
  | header | headerAhead | payload held => exact ht.elim

theorem exists_error (h : ¬ (t.size ≤ r.available ∧ t.Announced r.remaining)) :
    ∃ e, Field.read t r = .error e := by
  have hshort (hannounced : t.Announced r.remaining) : r.available < t.size :=
    Nat.lt_of_not_le fun hsize => h ⟨hsize, hannounced⟩
  cases t with
  | header =>
    rw [Field.read, Header.read_of_lt (hshort trivial)]
    exact ⟨_, rfl⟩
  | headerAhead =>
    rw [Field.read, Header.peek, Header.read_of_lt (hshort trivial)]
    exact ⟨_, rfl⟩
  | payload held =>
    cases hread : held.read r with
    | error e =>
      rw [Field.read, hread]
      exact ⟨e, rfl⟩
    | ok out =>
      obtain ⟨hroom, hannounced, -⟩ := Payload.read_eq_ok_iff.1 hread
      have hsize := Kind.size_eq_extent (Kind.extent_le_of_announced hannounced)
      exact absurd (hshort hannounced) (Nat.not_lt_of_le (Nat.le_trans (Nat.le_of_eq hsize) hroom))
  | _ => exact ⟨_, read_of_lt trivial (hshort trivial)⟩

theorem Announced.of_append (h : t.Announced (bytes ++ rest)) (hsize : bytes.length = t.size) :
    t.Announced bytes := by
  cases t with
  | payload held =>
    have hstring : held.kind.Announced (bytes ++ rest) := h
    have hextent := Kind.size_eq_extent (Kind.extent_le_of_announced hstring)
    exact (Kind.announced_of_le (Nat.le_of_eq (hextent.symm.trans hsize.symm)) rest).1 hstring
  | _ => trivial

theorem Primitive.announced (h : t.Primitive) (bytes : List UInt8) : t.Announced bytes := by
  cases t with
  | payload held => exact h.elim
  | _ => trivial

/-- A read yields what the bytes ahead say if it has the bytes it needs and the length it expects,
and fails if not. -/
theorem read_cases (t : Template) (r : Reader) :
    ((t.size ≤ r.available ∧ t.Announced r.remaining) ∧
      ∃ value, t.Says (r.remaining.take t.size) value ∧
        Field.read t r = .ok (value, r.advance t.passed)) ∨
    (¬ (t.size ≤ r.available ∧ t.Announced r.remaining) ∧ ∃ e, Field.read t r = .error e) := by
  by_cases h : t.size ≤ r.available ∧ t.Announced r.remaining
  · have hsplit : r.remaining = r.remaining.take t.size ++ r.remaining.drop t.size :=
      (List.take_append_drop _ _).symm
    have hlength : (r.remaining.take t.size).length = t.size := by
      rw [List.length_take, r.length_remaining]
      exact Nat.min_eq_left h.1
    obtain ⟨value, hsaid⟩ := exists_value hlength (Announced.of_append (hsplit ▸ h.2) hlength)
    exact Or.inl ⟨h, value, hsaid, hsaid.read_eq hsplit⟩
  · exact Or.inr ⟨h, exists_error h⟩

end Template

/-- A reply that is all or nothing. It yields a value exactly if the bytes ahead say it, and they
do if there are enough and they announce the length expected. The reader passes what was read, or
a fault leaves it and the operand as they were. -/
structure Answers (t : Template) (r : Reader) (reply : Reply) : Prop where
  value_iff : ∀ value, reply.result = .ok value ↔ t.Says (r.remaining.take t.size) value
  ok_iff : (∃ value, reply.result = .ok value) ↔ t.size ≤ r.available ∧ t.Announced r.remaining
  of_ok : ∀ value, reply.result = .ok value →
    reply.operand = t.holding value ∧ reply.reader = r.advance t.passed
  of_error : ∀ e, reply.result = .error e → reply.operand = t ∧ reply.reader = r ∧
    (t.Primitive → e = .wire (.underrun t.size r.available))

/-- A reader inside a buffer. What it has not passed is the rest of the buffer. -/
structure Within (buffer : List UInt8) (r : Reader) : Prop where
  same : r.buffer = buffer
  position : r.position ≤ buffer.length
  available : r.available = buffer.length - r.position
  remaining : buffer.take r.position ++ r.remaining = buffer

section Replies

variable {t : Template} {r : Reader}

theorem answers_of_value {value : Field} (h : t.size ≤ r.available ∧ t.Announced r.remaining)
    (hsaid : t.Says (r.remaining.take t.size) value) :
    Answers t r ⟨.ok value, t.holding value, r.advance t.passed⟩ := by
  constructor
  case value_iff =>
    intro other
    constructor
    · rintro ⟨⟩
      exact hsaid
    · intro hother
      rw [hsaid.unique hother]
  case ok_iff => exact ⟨fun _ => h, fun _ => ⟨value, rfl⟩⟩
  case of_ok =>
    rintro other ⟨⟩
    exact ⟨rfl, rfl⟩
  case of_error => rintro e ⟨⟩

theorem answers_of_error {e : Error} (h : ¬ (t.size ≤ r.available ∧ t.Announced r.remaining))
    (hread : Field.read t r = .error e) : Answers t r ⟨.error e, t, r⟩ := by
  constructor
  case value_iff =>
    intro value
    constructor
    · rintro ⟨⟩
    · intro hsaid
      have hsplit := (List.take_append_drop t.size r.remaining).symm
      cases (hsaid.read_eq hsplit).symm.trans hread
  case ok_iff =>
    constructor
    · rintro ⟨value, ⟨⟩⟩
    · exact fun hready => absurd hready h
  case of_ok => rintro value ⟨⟩
  case of_error =>
    rintro e ⟨⟩
    refine ⟨rfl, rfl, ?_⟩
    intro hprimitive
    have hlt : r.available < t.size :=
      Nat.lt_of_not_le fun hsize => h ⟨hsize, hprimitive.announced _⟩
    cases (Template.read_of_lt hprimitive hlt).symm.trans hread
    rfl

theorem answers_ask (t : Template) (r : Reader) : Answers t r (t.ask r) := by
  rw [t.ask_eq r]
  rcases t.read_cases r with ⟨hready, value, hsaid, hread⟩ | ⟨hshort, e, hread⟩
  · rw [hread]
    exact answers_of_value hready hsaid
  · rw [hread]
    exact answers_of_error hshort hread

end Replies

namespace Within

variable {buffer : List UInt8} {r : Reader} {requests : List Request}

theorem of_le (hsame : r.buffer = buffer) (hposition : r.position ≤ buffer.length) :
    Within buffer r := by
  subst hsame
  exact ⟨rfl, hposition, rfl, List.take_append_drop _ _⟩

theorem advance {count : Nat} (h : Within buffer r) (hcount : count ≤ r.available) :
    Within buffer (r.advance count) := by
  rw [h.available] at hcount
  have hposition := h.position
  refine of_le h.same ?_
  simp only [Reader.advance]
  omega

theorem serve (h : Within buffer r) (request : Request) : Within buffer (request.serve r) := by
  cases request with
  | startOver => exact of_le h.same (Nat.zero_le _)
  | read t =>
    have hreply := answers_ask t r
    rw [Request.serve]
    cases hresult : (t.ask r).result with
    | error e =>
      obtain ⟨-, hreader, -⟩ := hreply.of_error e hresult
      rw [hreader]
      exact h
    | ok value =>
      obtain ⟨hsize, -⟩ := hreply.ok_iff.1 ⟨value, hresult⟩
      obtain ⟨-, hreader⟩ := hreply.of_ok value hresult
      rw [hreader]
      exact h.advance (Nat.le_trans t.passed_le_size hsize)

theorem after (buffer : List UInt8) (requests : List Request) :
    Within buffer (Request.after buffer requests) := by
  have hrun (r : Reader) (h : Within buffer r) :
      Within buffer (requests.foldl Request.serve r) := by
    induction requests generalizing r with
    | nil => exact h
    | cons request requests ih => exact ih _ (h.serve request)
  exact hrun _ (of_le rfl (Nat.zero_le _))

end Within

/-- Whatever has been asked of a reader on a buffer, and whichever requests have failed, it stands
inside the buffer. The next read is all or nothing, and starting over makes the reader new. -/
theorem reads_all_or_nothing (buffer : List UInt8) (requests : List Request) :
    Within buffer (Request.after buffer requests) ∧
      (∀ t : Template, Answers t (Request.after buffer requests)
        (t.ask (Request.after buffer requests))) ∧
      Request.startOver.serve (Request.after buffer requests) = Reader.ofBytes buffer := by
  have hwithin := Within.after buffer requests
  refine ⟨hwithin, fun t => answers_ask t _, ?_⟩
  rw [Request.serve, Reader.reset, hwithin.same]
  rfl

/-- A header cut off behind its third byte: the fields before the cut are passed on the copy, and
the reader stays where it was. -/
example : (Header.fields (Reader.ofBytes [7, 0x90, 10])).2.position = 3 ∧
    (Template.header.ask (Reader.ofBytes [7, 0x90, 10])).reader.position = 0 := by
  decide

end Signal
end InstrumentBus
