import InstrumentBus.Proofs.Signal.Overflow
import InstrumentBus.Proofs.Signal.Transmission
import InstrumentBus.Proofs.Wire.Lattice
import Mathlib.Data.List.Forall2

/-!
# Fields written and read back

A script is a list of fields. Where there is room it is written field by field, and whoever knows
what to expect of each field reads it back: every field ends where the next one begins. Numbers
have their most significant byte first.
-/

namespace InstrumentBus
namespace Signal

open Numeric Wire

/-- The digits of a word to base 256, the most significant one first. -/
def wordImage (n : UInt32) : List UInt8 :=
  [UInt8.ofNat (n.toNat / 0x1000000), UInt8.ofNat (n.toNat / 0x10000 % 256),
    UInt8.ofNat (n.toNat / 0x100 % 256), UInt8.ofNat (n.toNat % 256)]

def Payload.image : Payload → List UInt8
  | .scaled f => wordImage f.encode
  | .integer n => wordImage n
  | .buffer bytes => wordImage (UInt32.ofNat bytes.length) ++ bytes

theorem Payload.bytes_eq_image (p : Payload) : p.bytes = p.image := by
  cases p with
  | scaled f => simp [bytes, parts, image, FixedPoint.bytes, wordBytes32_eq, wordImage]
  | integer n => simp [bytes, parts, image, wordBytes32_eq, wordImage]
  | buffer bytes => simp [Payload.bytes, parts, image, wordBytes32_eq, wordImage]

/-- What is expected of a field: its type, the length of a byte string, the resolution of a
fixed-point value and the kind of a payload. -/
inductive Template.For : Template → Field → Prop where
  | byte (b : UInt8) : Template.For .byte (.byte b)
  | half (n : UInt16) : Template.For .half (.half n)
  | word (n : UInt32) : Template.For .word (.word n)
  | signedWord (n : Int) : Template.For .signedWord (.signedWord n)
  | bytes (content : List UInt8) : Template.For (.bytes content.length) (.bytes content)
  | fixed {f held : FixedPoint} (h : held.resolution = f.resolution) :
      Template.For (.fixed held) (.fixed f)
  | header (h : Header) : Template.For .header (.header h)
  | payload {p held : Payload} (h : held.kind = p.kind) :
      Template.For (.payload held) (.payload p)

theorem Field.template_for (f : Field) : f.template.For f := by
  cases f with
  | byte b => exact .byte b
  | half n => exact .half n
  | word n => exact .word n
  | signedWord n => exact .signedWord n
  | bytes content => exact .bytes content
  | fixed f => exact .fixed rfl
  | header h => exact .header h
  | payload p => exact .payload rfl

namespace Field

def image : Field → List UInt8
  | .byte b => [b]
  | .half n => [UInt8.ofNat (n.toNat / 256), UInt8.ofNat (n.toNat % 256)]
  | .word n => wordImage n
  | .signedWord n => wordImage (wordOf n)
  | .bytes content => content
  | .fixed f => wordImage f.encode
  | .header h => [h.device, h.priority.byte, h.identity.category, h.identity.subcategory] ++
      wordImage h.timestamp
  | .payload p => p.image

def size : Field → Nat
  | .byte _ => 1
  | .half _ => 2
  | .word _ | .signedWord _ | .fixed _ => wordSize
  | .bytes content => content.length
  | .header _ => headerSize
  | .payload p => p.size

/-- A field that can be read back once it is written: its resolution is one, and a number or a
length that travels as a word fits it. -/
def Sound : Field → Prop
  | .signedWord n => -0x80000000 ≤ n ∧ n < 0x80000000
  | .fixed f => isResolution f.resolution = true
  | .payload p => p.Sound
  | .byte _ | .half _ | .word _ | .bytes _ | .header _ => True

/-- A field and what is read of it: a fixed-point value is the one made anew from its resolution
and its word, and every other field is the same. -/
inductive Carried : Field → Field → Prop where
  | byte (b : UInt8) : Carried (.byte b) (.byte b)
  | half (n : UInt16) : Carried (.half n) (.half n)
  | word (n : UInt32) : Carried (.word n) (.word n)
  | signedWord (n : Int) : Carried (.signedWord n) (.signedWord n)
  | bytes (content : List UInt8) : Carried (.bytes content) (.bytes content)
  | fixed {f g : FixedPoint} (h : FixedPoint.ofRaw f.resolution f.encode = .ok g) :
      Carried (.fixed f) (.fixed g)
  | header (h : Header) : Carried (.header h) (.header h)
  | payload {p q : Payload} (h : Payload.Carried p q) : Carried (.payload p) (.payload q)

def sendAll (w : Writer) : List Field → Except Error Unit × Writer
  | [] => (.ok (), w)
  | f :: fields =>
    match f.send w with
    | (.error e, w) => (.error e, w)
    | (.ok (), w) => sendAll w fields

def readAll (r : Reader) : List Template → Except Error (List Field × Reader)
  | [] => .ok ([], r)
  | t :: templates =>
    match read t r with
    | .error e => .error e
    | .ok (f, r) =>
      match readAll r templates with
      | .error e => .error e
      | .ok (fields, r) => .ok (f :: fields, r)

def totalSize : List Field → Nat
  | [] => 0
  | f :: fields => f.size + totalSize fields

section Encodings

variable {f : Field} {fields : List Field} {w : Writer}

theorem encoding_eq_image (f : Field) : f.encoding = f.image := by
  cases f with
  | byte b => rfl
  | half n => simp [encoding, parts, image, halfBytes_eq]
  | word n => simp [encoding, parts, image, wordBytes32_eq, wordImage]
  | signedWord n => simp [encoding, parts, image, wordBytes32_eq, wordImage]
  | bytes content => simp [encoding, parts, image]
  | fixed f => simp [encoding, parts, image, FixedPoint.bytes, wordBytes32_eq, wordImage]
  | header h =>
    have hbytes := h.bytes_eq
    rw [wordBytes32_eq] at hbytes
    exact hbytes
  | payload p => exact p.bytes_eq_image

theorem Sound.encodable (h : f.Sound) : f.Encodable := by
  cases f with
  | payload p => exact Payload.Sound.encodable h
  | _ => trivial

theorem length_encoding (h : f.Sound) : f.encoding.length = f.size := by
  cases f with
  | byte b => rfl
  | half n => simp [encoding, parts, size, halfBytes]
  | word n => simp [encoding, parts, size, wordBytes32, wordSize]
  | signedWord n => simp [encoding, parts, size, wordBytes32, wordSize]
  | bytes content => simp [encoding, parts, size]
  | fixed f => simp [encoding, parts, size, FixedPoint.bytes, wordBytes32, wordSize]
  | header header => exact header.length_bytes
  | payload p =>
    have hlength : p.bytes.length = p.kind.extent := p.length_bytes
    refine hlength.trans (Kind.size_eq_extent ?_).symm
    cases p with
    | scaled f => exact (by decide : wordSize ≤ sizeLimit)
    | integer n => exact (by decide : wordSize ≤ sizeLimit)
    | buffer bytes =>
      have hl : bytes.length ≤ 0xffffffff := h
      simp only [Payload.kind, Kind.extent, wordSize, sizeLimit]
      omega

theorem length_flatMap_encoding (h : ∀ f ∈ fields, f.Sound) :
    (fields.flatMap encoding).length = totalSize fields := by
  induction fields with
  | nil => rfl
  | cons f fields ih =>
    obtain ⟨hf, hrest⟩ := List.forall_mem_cons.1 h
    rw [List.flatMap_cons, List.length_append, length_encoding hf, ih hrest, totalSize]

theorem keeps_sendAll (hp : w.position ≤ w.buffer.length) (h : ∀ f ∈ fields, f.Encodable) :
    Keeps w (fields.flatMap encoding) (sendAll w fields) := by
  induction fields generalizing w with
  | nil => exact .nil w
  | cons f fields ih =>
    obtain ⟨hf, hrest⟩ := List.forall_mem_cons.1 h
    rw [List.flatMap_cons]
    refine (keeps_send hp hf).andThen hp ?_ ?_
    · intro e w' herror
      rw [sendAll, herror]
    · intro w' hok hp'
      rw [sendAll, hok]
      exact ih hp' hrest

end Encodings

section Readings

variable {f : Field} {fields : List Field} {t : Template} {templates : List Template} {r : Reader}
  {rest : List UInt8}

theorem word_of_append {n : UInt32} (hr : r.remaining = wordBytes32 n ++ rest) :
    r.word = .ok (n, r.advance wordSize) := by
  have hroom : 4 ≤ r.available := by
    rw [← r.length_remaining, hr, List.length_append, wordBytes32, length_wordBytes]
    exact Nat.le_add_right _ _
  rw [Reader.word_eq, if_pos hroom, hr, wordAt_append]
  rfl

theorem payload_of_append {p held : Payload} (hkind : held.kind = p.kind) (h : p.Sound)
    (hr : r.remaining = p.bytes ++ rest) :
    held.read r = .ok (p.carried, r.advance p.kind.extent) := by
  have hroom : p.kind.extent ≤ r.available := by
    rw [← r.length_remaining, hr, List.length_append, p.length_bytes]
    exact Nat.le_add_right _ _
  have hannounced := Payload.announced_append h.encodable rest
  have hcarried := p.ofBytes_append rest
  rw [← hr] at hannounced hcarried
  refine Payload.read_eq_ok_iff.2 ?_
  rw [hkind, hcarried]
  exact ⟨hroom, hannounced, rfl⟩

theorem read_encoding (ht : t.For f) (h : f.Sound) (hr : r.remaining = f.encoding ++ rest) :
    ∃ g, read t r = .ok (g, r.advance f.encoding.length) ∧ Carried f g := by
  have hroom : f.encoding.length ≤ r.available := by
    rw [← r.length_remaining, hr, List.length_append]
    exact Nat.le_add_right _ _
  cases ht with
  | byte b =>
    have hone : 1 ≤ r.available := hroom
    refine ⟨.byte b, ?_, .byte b⟩
    rw [read, Reader.byte_eq, if_pos hone, hr]
    rfl
  | half n =>
    have htwo : 2 ≤ r.available := hroom
    have hhalf : halfAt r.remaining 0 = n := hr ▸ halfAt_append n rest
    refine ⟨.half n, ?_, .half n⟩
    rw [read, Reader.half_eq, if_pos htwo, hhalf]
    rfl
  | word n =>
    refine ⟨.word n, ?_, .word n⟩
    rw [read, word_of_append hr]
    rfl
  | signedWord n =>
    obtain ⟨hleast, hgreatest⟩ := h
    refine ⟨.signedWord n, ?_, .signedWord n⟩
    rw [read, Reader.signedWord, word_of_append hr]
    dsimp only
    rw [signedValue_wordOf hleast hgreatest]
    rfl
  | bytes content =>
    have hcontent : (Field.bytes content).encoding = content := encoding_eq_image _
    have htake : (content ++ rest).take content.length = content := List.take_left' rfl
    rw [hcontent] at hr hroom ⊢
    refine ⟨.bytes content, ?_, .bytes content⟩
    rw [read, Reader.bytes, if_pos hroom, hr, htake]
    rfl
  | @fixed f held hresolution =>
    have hmade : FixedPoint.ofRaw f.resolution f.encode = .ok (held.decode f.encode) := by
      rw [ofRaw_eq h, FixedPoint.decode, hresolution]
    refine ⟨.fixed (held.decode f.encode), ?_, .fixed hmade⟩
    rw [read, Reader.fixed, word_of_append hr]
    rfl
  | header header =>
    have hheader : headerSize ≤ r.available := header.length_bytes ▸ hroom
    have hsame : Header.ofBytes r.remaining = header := hr ▸ header.ofBytes_append rest
    refine ⟨.header header, ?_, .header header⟩
    rw [read, Header.read_of_le hheader, hsame]
    rfl
  | @payload p held hkind =>
    refine ⟨.payload p.carried, ?_, .payload (Payload.carried_spec h)⟩
    rw [read, payload_of_append hkind h hr, ← p.length_bytes]
    rfl

/-- A script is read field by field up to its end, whatever follows it. -/
theorem readAll_encoding (ht : List.Forall₂ Template.For templates fields)
    (h : ∀ f ∈ fields, f.Sound) (hr : r.remaining = fields.flatMap encoding ++ rest) :
    ∃ found, readAll r templates = .ok (found, r.advance (fields.flatMap encoding).length) ∧
      List.Forall₂ Carried fields found := by
  induction ht generalizing r with
  | nil => exact ⟨[], rfl, .nil⟩
  | @cons t f templates fields ht hts ih =>
    obtain ⟨hf, hrest⟩ := List.forall_mem_cons.1 h
    rw [List.flatMap_cons, List.append_assoc] at hr
    obtain ⟨g, hread, hcarried⟩ := read_encoding ht hf hr
    have hnext : (r.advance f.encoding.length).remaining = fields.flatMap encoding ++ rest := by
      rw [Reader.remaining_advance, hr]
      exact List.drop_left' rfl
    obtain ⟨found, hreads, hall⟩ := ih hrest hnext
    refine ⟨g :: found, ?_, .cons hcarried hall⟩
    rw [readAll, hread]
    dsimp only
    rw [hreads, Reader.advance_advance, List.flatMap_cons, List.length_append]

end Readings

end Field

/-- What is written field by field is read back field by field. Where the buffer has room for a
script, all of it is written, and nothing is left when all of it is read. -/
theorem scripts_read_as_written {fields : List Field} {templates : List Template}
    {buffer : List UInt8} (hfields : ∀ f ∈ fields, f.Sound)
    (htemplates : List.Forall₂ Template.For templates fields)
    (hroom : Field.totalSize fields ≤ buffer.length) :
    ∃ w, Field.sendAll (Writer.ofBuffer buffer) fields = (.ok (), w) ∧
      w.position = Field.totalSize fields ∧
      w.written = fields.flatMap Field.image ∧
      ∃ found r, Field.readAll (Reader.ofBytes w.written) templates = .ok (found, r) ∧
        List.Forall₂ Field.Carried fields found ∧ r.available = 0 := by
  have hlength := Field.length_flatMap_encoding hfields
  have himage : fields.flatMap Field.encoding = fields.flatMap Field.image :=
    congrArg (List.flatMap · fields) (funext Field.encoding_eq_image)
  have hsent : Field.sendAll (Writer.ofBuffer buffer) fields = (.ok (), _) :=
    (Field.keeps_sendAll (Nat.zero_le _) fun f hf => (hfields f hf).encodable).eq_of_le
      (hlength ▸ hroom)
  have hwritten : ((Writer.ofBuffer buffer).lay (fields.flatMap Field.encoding)).written =
      fields.flatMap Field.encoding := Writer.written_lay (Nat.zero_le _) _
  have hremaining : (Reader.ofBytes (fields.flatMap Field.encoding)).remaining =
      fields.flatMap Field.encoding ++ [] := (List.append_nil _).symm
  obtain ⟨found, hread, hcarried⟩ := Field.readAll_encoding htemplates hfields hremaining
  refine ⟨_, hsent, ?_, hwritten.trans himage, found, _, hwritten ▸ hread, hcarried, ?_⟩
  · exact (Nat.zero_add _).trans hlength
  · rw [Reader.available_advance]
    exact Nat.sub_self _

def sampleScript : List Field :=
  [.half 0xbeef, .fixed ⟨.ofNat 1, .ofInt (-2)⟩, .payload (.buffer [7, 8])]

theorem sampleScript_read_back :
    (∀ f ∈ sampleScript, f.Sound) ∧
      List.Forall₂ Template.For (sampleScript.map Field.template) sampleScript ∧
      Field.totalSize sampleScript ≤ (List.replicate 16 (0xee : UInt8)).length ∧
      ∃ w, Field.sendAll (Writer.ofBuffer (List.replicate 16 0xee)) sampleScript = (.ok (), w) ∧
        w.written = [0xbe, 0xef, 0xff, 0xff, 0xff, 0xfe, 0, 0, 0, 2, 7, 8] ∧
        ∃ found r, Field.readAll (Reader.ofBytes w.written) (sampleScript.map Field.template) =
            .ok (found, r) ∧
          List.Forall₂ Field.Carried sampleScript found ∧ r.available = 0 := by
  have hresolution : isResolution (Binary64.ofNat 1) = true := by decide +kernel
  have hstring : (Field.payload (.buffer [7, 8])).Sound := by
    change 2 ≤ lengthLimit
    decide
  have hsound : ∀ f ∈ sampleScript, f.Sound := by
    simp only [sampleScript, List.forall_mem_cons]
    exact ⟨trivial, hresolution, hstring, List.forall_mem_nil _⟩
  have htemplates : List.Forall₂ Template.For (sampleScript.map Field.template) sampleScript :=
    List.forall₂_map_left_iff.2 (List.forall₂_same.2 fun f _ => f.template_for)
  have hroom : Field.totalSize sampleScript ≤ (List.replicate 16 (0xee : UInt8)).length := by
    decide
  obtain ⟨w, hsent, -, hwritten, hread⟩ := scripts_read_as_written hsound htemplates hroom
  exact ⟨hsound, htemplates, hroom, w, hsent, hwritten.trans (by decide +kernel), hread⟩

end Signal
end InstrumentBus
