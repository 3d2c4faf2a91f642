import InstrumentBus.Signal.Field

/-!
# Writing past the end

Whatever is written to a writer, and however much of it fits, the writer holds the first bytes of
all that was meant to be written, as many as there is room for. It does not matter whether a
write is cut in a number, in a header or between two parts of a payload: a write that fails has
filled the buffer.
-/

namespace InstrumentBus
namespace Signal

open Wire

/-- A write of bytes that keeps what fits: as many as there is room for are laid at the position,
and it succeeds exactly if these are all. -/
structure Keeps {ε : Type} (w : Writer) (bytes : List UInt8) (result : Except ε Unit × Writer) :
    Prop where
  laid : result.2 = w.lay (bytes.take w.available)
  ok_iff : result.1 = .ok () ↔ bytes.length ≤ w.available

namespace Keeps

variable {ε : Type} {w w' : Writer} {first second : List UInt8} {e e' : ε}
  {result : Except ε Unit × Writer}

theorem nil (w : Writer) : Keeps w [] ((.ok (), w) : Except ε Unit × Writer) := by
  refine ⟨?_, fun _ => Nat.zero_le _, fun _ => rfl⟩
  rw [List.take_nil, Writer.lay_nil]

theorem eq_of_le (h : Keeps w first result) (hfits : first.length ≤ w.available) :
    result = (.ok (), w.lay first) := by
  have hlaid := h.laid
  rw [List.take_of_length_le hfits] at hlaid
  exact Prod.ext (h.ok_iff.2 hfits) hlaid

theorem lay_eq (h : Keeps w first ((.ok (), w') : Except ε Unit × Writer)) :
    first.length ≤ w.available ∧ w' = w.lay first := by
  have hfits := h.ok_iff.1 rfl
  exact ⟨hfits, congrArg Prod.snd (h.eq_of_le hfits)⟩

theorem next (hp : w.position ≤ w.buffer.length)
    (h : Keeps w first ((.ok (), w') : Except ε Unit × Writer)) (hnext : Keeps w' second result) :
    Keeps w (first ++ second) result := by
  obtain ⟨hfits, rfl⟩ := h.lay_eq
  have hlaid := hnext.laid
  have hiff := hnext.ok_iff
  rw [Writer.available_lay hfits] at hlaid hiff
  constructor
  · rw [hlaid, Writer.lay_lay hp, List.take_append, List.take_of_length_le hfits]
  · rw [hiff, List.length_append]
    omega

theorem cut (h : Keeps w first (.error e, w')) (second : List UInt8) (e' : ε) :
    Keeps w (first ++ second) (.error e', w') := by
  have hcut : ¬ first.length ≤ w.available := fun hfits => by cases h.ok_iff.2 hfits
  have htake : (first ++ second).take w.available = first.take w.available :=
    List.take_append_of_le_length (by omega)
  refine ⟨?_, ?_⟩
  · rw [htake]
    exact h.laid
  · rw [List.length_append]
    constructor
    · rintro ⟨⟩
    · omega

/-- A write behind another one: it goes on where that one succeeds, and fails where it fails. -/
theorem andThen {out : Except ε Unit × Writer} (hp : w.position ≤ w.buffer.length)
    (h : Keeps w first result)
    (herror : ∀ e w', result = (.error e, w') → out = (.error e, w'))
    (hok : ∀ w', result = (.ok (), w') → w'.position ≤ w'.buffer.length → Keeps w' second out) :
    Keeps w (first ++ second) out := by
  rcases result with ⟨e | _, after⟩
  · exact herror e after rfl ▸ h.cut second e
  · obtain ⟨hfits, rfl⟩ := h.lay_eq
    exact h.next hp (hok _ rfl (Writer.position_lay_le hp hfits))

end Keeps

theorem keeps_put (w : Writer) (bytes : List UInt8) : Keeps w bytes (w.put bytes) := by
  rw [Writer.put_eq]
  split
  · next hfits => exact ⟨by rw [List.take_of_length_le hfits], fun _ => hfits, fun _ => rfl⟩
  · next hcut => exact ⟨rfl, by rintro ⟨⟩, fun hfits => absurd hfits hcut⟩

theorem keeps_putAll {w : Writer} (hp : w.position ≤ w.buffer.length) (parts : List (List UInt8)) :
    Keeps w parts.flatten (w.putAll parts) := by
  induction parts generalizing w with
  | nil => exact .nil w
  | cons part parts ih =>
    refine (keeps_put w part).andThen hp ?_ ?_
    · intro e w' herror
      rw [Writer.putAll, herror]
    · intro w' hok hp'
      rw [Writer.putAll, hok]
      exact ih hp'

theorem Keeps.sending {w : Writer} {bytes : List UInt8} {result : Except Wire.Error Unit × Writer}
    (h : Keeps w bytes result) : Keeps w bytes (sending result) := by
  obtain ⟨_ | _, after⟩ := result
  · refine ⟨h.laid, ?_, fun hfits => by cases h.ok_iff.2 hfits⟩
    rintro ⟨⟩
  · exact ⟨h.laid, fun _ => h.ok_iff.1 rfl, fun _ => rfl⟩

section Parts

variable {w : Writer} (hp : w.position ≤ w.buffer.length)
include hp

theorem Payload.keeps_write {p : Payload} (h : p.Encodable) : Keeps w p.bytes (p.write w) := by
  rw [write_of_encodable h]
  exact (keeps_putAll hp p.parts).sending

theorem Field.keeps_send {f : Field} (h : f.Encodable) : Keeps w f.encoding (f.send w) := by
  rw [send_of_encodable h]
  exact (keeps_putAll hp f.parts).sending

/-- The header of a datagram is written in full before its payload is begun. -/
theorem Record.keeps_write {r : Record} (hm : r.mode = .transmit) (h : r.payload.Encodable) :
    Keeps w r.bytes (r.write w) := by
  have hheader : Keeps w r.header.bytes (Signal.sending (r.header.write w)) :=
    (keeps_putAll hp r.header.parts).sending
  have hrequire : r.require .transmit = .ok () := if_pos hm
  refine hheader.andThen hp ?_ ?_
  · intro e w' herror
    simp only [Record.write, hrequire, herror]
  · intro w' hok hp'
    simp only [Record.write, hrequire, hok]
    exact Payload.keeps_write hp' h

end Parts

/-- What can be written to a writer: a field, or the datagram of a record. -/
inductive Entry where
  | field (f : Field)
  | record (r : Record)

namespace Entry

def bytes : Entry → List UInt8
  | .field f => f.encoding
  | .record r => r.bytes

def send (entry : Entry) (w : Writer) : Except Error Unit × Writer :=
  match entry with
  | .field f => f.send w
  | .record r => r.write w

def Encodable : Entry → Prop
  | .field f => f.Encodable
  | .record r => r.mode = .transmit ∧ r.payload.Encodable

def sendAll (w : Writer) (entries : List Entry) : Writer :=
  entries.foldl (fun w entry => (entry.send w).2) w

variable {w : Writer} {entry : Entry} {entries : List Entry}

theorem keeps_send (hp : w.position ≤ w.buffer.length) (h : entry.Encodable) :
    Keeps w entry.bytes (entry.send w) := by
  cases entry with
  | field f => exact Field.keeps_send hp h
  | record r => exact Record.keeps_write hp h.1 h.2

/-- Of all that is written, what fits is laid at the position. -/
theorem sendAll_eq (hp : w.position ≤ w.buffer.length) (h : ∀ entry ∈ entries, entry.Encodable) :
    sendAll w entries = w.lay ((entries.flatMap bytes).take w.available) := by
  induction entries generalizing w with
  | nil =>
    rw [List.flatMap_nil, List.take_nil, Writer.lay_nil]
    rfl
  | cons entry entries ih =>
    obtain ⟨hentry, hrest⟩ := List.forall_mem_cons.1 h
    have hroom : (entry.bytes.take w.available).length ≤ w.available := List.length_take_le _ _
    have hnext := ih (Writer.position_lay_le hp hroom) hrest
    have hleft : w.available - (entry.bytes.take w.available).length =
        w.available - entry.bytes.length := by
      rw [List.length_take]
      omega
    calc
      sendAll w (entry :: entries)
        = sendAll (w.lay (entry.bytes.take w.available)) entries := by
          rw [← (keeps_send hp hentry).laid]
          rfl
      _ = w.lay (entry.bytes.take w.available ++
            (entries.flatMap bytes).take (w.available - entry.bytes.length)) := by
          rw [hnext, Writer.lay_lay hp, Writer.available_lay hroom, hleft]
      _ = w.lay (((entry :: entries).flatMap bytes).take w.available) := by
          rw [List.flatMap_cons, List.take_append]

end Entry

/-- A writer on `buffer` to which `bytes` were written: it holds the first of them, as many as the
buffer has room for, and the buffer behind them is as it was. -/
structure Filled (buffer bytes : List UInt8) (w : Writer) : Prop where
  written : w.written = bytes.take buffer.length
  position : w.position = Nat.min buffer.length bytes.length
  available : w.position + w.available = buffer.length
  behind : w.buffer.drop w.position = buffer.drop w.position
  length : w.buffer.length = buffer.length

theorem filled_lay (buffer bytes : List UInt8) :
    Filled buffer bytes ((Writer.ofBuffer buffer).lay (bytes.take buffer.length)) := by
  have hp : (Writer.ofBuffer buffer).position ≤ (Writer.ofBuffer buffer).buffer.length :=
    Nat.zero_le _
  have hroom : (bytes.take buffer.length).length ≤ (Writer.ofBuffer buffer).available :=
    List.length_take_le _ _
  have hposition : ((Writer.ofBuffer buffer).lay (bytes.take buffer.length)).position =
      (bytes.take buffer.length).length := Nat.zero_add _
  have hlength := List.length_take_le buffer.length bytes
  refine ⟨?_, ?_, ?_, ?_, ?_⟩
  · exact Writer.written_lay hp _
  · exact hposition.trans List.length_take
  · rw [hposition, Writer.available_lay hroom]
    exact Nat.add_sub_of_le hlength
  · rw [hposition]
    simp only [Writer.lay, Writer.ofBuffer, List.take_zero, List.nil_append, Nat.zero_add]
    exact List.drop_left' rfl
  · exact Writer.length_lay hroom

/-- A writer that overflows keeps exactly what fits. After any entries, those that failed among
them, it holds the first bytes of all their encodings, and the next one succeeds exactly if its
encoding fits in the room that is left. To start over moves the position and no byte. -/
theorem overflow_keeps_what_fits :
    (∀ {entries : List Entry} (buffer : List UInt8), (∀ entry ∈ entries, entry.Encodable) →
      Filled buffer (entries.flatMap Entry.bytes)
          (Entry.sendAll (Writer.ofBuffer buffer) entries) ∧
        ∀ entry : Entry, entry.Encodable →
          ((entry.send (Entry.sendAll (Writer.ofBuffer buffer) entries)).1 = .ok () ↔
            entry.bytes.length ≤ (Entry.sendAll (Writer.ofBuffer buffer) entries).available)) ∧
    ∀ w : Writer, w.reset.position = 0 ∧ w.reset.buffer = w.buffer := by
  refine ⟨?_, fun w => ⟨rfl, rfl⟩⟩
  intro entries buffer h
  have hfilled : Filled buffer (entries.flatMap Entry.bytes)
      (Entry.sendAll (Writer.ofBuffer buffer) entries) := by
    rw [Entry.sendAll_eq (Nat.zero_le _) h]
    exact filled_lay buffer _
  refine ⟨hfilled, ?_⟩
  intro entry hentry
  have hposition : (Entry.sendAll (Writer.ofBuffer buffer) entries).position ≤
      (Entry.sendAll (Writer.ofBuffer buffer) entries).buffer.length := by
    rw [hfilled.length, ← hfilled.available]
    exact Nat.le_add_right _ _
  exact (Entry.keeps_send hposition hentry).ok_iff

def sampleEntries : List Entry :=
  [.field (.half 0x1234), .field (.payload (.buffer [1, 2, 3])), .field (.byte 5)]

/-- The byte string is cut before its last byte, and there is no room for the byte behind it. -/
theorem sampleEntries_cut :
    (∀ entry ∈ sampleEntries, entry.Encodable) ∧
      Filled (List.replicate 8 0xee) (sampleEntries.flatMap Entry.bytes)
        (Entry.sendAll (Writer.ofBuffer (List.replicate 8 0xee)) sampleEntries) ∧
      (Entry.sendAll (Writer.ofBuffer (List.replicate 8 0xee)) sampleEntries).written =
        [0x12, 0x34, 0, 0, 0, 3, 1, 2] ∧
      (Entry.field (.byte 6)).Encodable ∧
      ((Entry.field (.byte 6)).send
        (Entry.sendAll (Writer.ofBuffer (List.replicate 8 0xee)) sampleEntries)).1 ≠ .ok () := by
  have hstring : (Payload.buffer [1, 2, 3]).Encodable := by
    change 3 ≤ lengthLimit
    decide
  have hencodable : ∀ entry ∈ sampleEntries, entry.Encodable := by
    simp only [sampleEntries, List.forall_mem_cons]
    exact ⟨trivial, hstring, trivial, List.forall_mem_nil _⟩
  obtain ⟨hfilled, hnext⟩ := overflow_keeps_what_fits.1 (List.replicate 8 0xee) hencodable
  refine ⟨hencodable, hfilled, hfilled.written.trans (by decide), trivial, ?_⟩
  intro hok
  have hroom := (hnext (.field (.byte 6)) trivial).1 hok
  revert hroom
  decide

end Signal
end InstrumentBus
