import JavaMend.Archive.Checksum
import JavaMend.Archive.Manifest

/-!
# `Archive.Frame` — Zstandard frames of stored blocks

A frame has a header, blocks, and perhaps a checksum. Frames are written with stored blocks only; of the frames that are
read, stored and repeated blocks are understood. Frames may follow one another, and frames that are to be skipped may
stand between them. Reading yields what comes before the first fault, since a reader that finds what it wants before the
fault never sees it.

## Contents
- **Headers.** `FrameHeader`, `frameHeader?`, `Buffers`.
- **Reading.** `Decoded`, `blocks`, `framesContent`, `frameContent`.
- **Writing.** `storedBlocks`, `frame`.
-/

namespace JavaMend.Archive

open JavaMend

/-! ## Headers -/

/-- The mark of a frame. -/
def frameMagic : Bytes := [0x28, 0xB5, 0x2F, 0xFD]

/-- What the header of a frame says about its blocks. -/
structure FrameHeader where
  /-- The length of the content, if it is given. -/
  contentSize : Option Nat
  /-- How far back blocks may look. -/
  window : Nat
  /-- The greatest length of a block. -/
  maxBlock : Nat
  /-- A checksum follows the last block. -/
  hasChecksum : Bool
deriving DecidableEq

/-- The greatest window that is accepted. -/
def maxWindow : Nat := Nat.pow 2 27 + 1

/-- The length of a field by the two bits that select it. -/
def fieldLength (choice : Nat) (lengths : List Nat) : Nat := lengths.getD choice 0

/-- The header after the mark of a frame, and the rest. -/
def frameHeader? (b : Bytes) : Option (FrameHeader × Bytes) := do
  let (descriptor, rest) ← takeNumber? 1 b
  let single := descriptor / 32 % 2 == 1
  let sizeChoice := descriptor / 64
  let (windowByte, rest) ← if single then some (0, rest) else takeNumber? 1 rest
  let (dictionary, rest) ← takeNumber? (fieldLength (descriptor % 4) [0, 1, 2, 4]) rest
  let sizeLength := if sizeChoice = 0 then (if single then 1 else 0) else fieldLength sizeChoice [0, 2, 4, 8]
  let (size, rest) ← takeNumber? sizeLength rest
  let contentSize := if sizeChoice = 1 then size + 256 else size
  -- Without a window of its own, a frame has its content for one.
  let window :=
    if single then contentSize
    else
      let base := Nat.pow 2 (10 + windowByte / 8)
      base + base / 8 * (windowByte % 8)
  if descriptor / 8 % 2 = 1 ∨ dictionary ≠ 0 ∨ maxWindow < window then none
  else
    -- The greatest number stands for a length that is not known.
    let known := sizeLength ≠ 0 ∧ contentSize + 1 ≠ Nat.pow 2 64
    return (⟨if known then some contentSize else none, window, min window (Nat.pow 2 17), descriptor / 4 % 2 == 1⟩, rest)

/-- How much room there is for a block, and for the content. -/
structure Buffers where
  block : Nat
  content : Nat

/-- The room that a frame needs: for its content, or for what is looked back at and two blocks more. Room from an earlier
    frame is kept if it is enough. -/
def FrameHeader.buffers (h : FrameHeader) (b : Buffers) : Buffers :=
  let enough := max h.window (Nat.pow 2 10) + 2 * h.maxBlock + 64
  let needed : Buffers := ⟨max h.maxBlock 4, (h.contentSize.getD enough).min enough⟩
  if b.block < needed.block ∨ b.content < needed.content then needed else b

/-- Where the content of a frame has to end: with the room, unless the room is used again and again. -/
def FrameHeader.limit? (h : FrameHeader) (b : Buffers) : Option Nat := h.contentSize.filter fun n => n ≤ b.content

/-! ## Reading -/

/-- What is read: pieces of content up to the first fault. -/
structure Decoded where
  pieces : List Bytes
  /-- There is a fault after the pieces, and not just an end. -/
  broken : Bool

/-- Blocks that were read up to a fault or an end. -/
structure BlockRun where
  pieces : List Bytes
  broken : Bool
  /-- What follows the last block, if it was reached. -/
  rest : Option Bytes

namespace BlockRun

/-- There is nothing more. -/
def cut : BlockRun := ⟨[], false, none⟩

/-- There is a fault. -/
def fault : BlockRun := ⟨[], true, none⟩

/-- A piece before the others, unless it is empty. -/
def after (piece : Bytes) (r : BlockRun) : BlockRun := if piece.isEmpty then r else { r with pieces := piece :: r.pieces }

end BlockRun

/-- The content of blocks. `seen` bytes came before, and it ends with `limit` at the latest. -/
def blocks (h : FrameHeader) (limit : Option Nat) (seen : Nat) (b : Bytes) : BlockRun :=
  match b with
  | b0 :: b1 :: b2 :: rest =>
    let header := b0.toNat + 256 * b1.toNat + 65536 * b2.toNat
    let last := header % 2 == 1
    let kind := header / 2 % 4
    let size := header / 8
    -- A repeated block stores its one byte once, however long it is.
    let stored := if kind = 1 then 1 else size
    if kind = 3 ∨ h.maxBlock < stored then .fault
    else if stored = 0 then
      -- An empty block at the end says nothing about the length.
      if last then ⟨[], false, some rest⟩ else blocks h limit seen rest
    else if kind = 2 then .fault
    else if kind = 1 ∧ rest.isEmpty then .cut
    else
      let content := if kind = 1 then List.replicate size (rest.headD 0) else rest.take size
      let total := seen + content.length
      if h.maxBlock < content.length ∨ limit.any (· < total) then .fault
      else if rest.length < stored then .after content .cut
      else if last then
        -- The content is handed out only once its length is known to be right.
        if h.contentSize.all (· == total) then .after content ⟨[], false, some (rest.drop stored)⟩ else .fault
      else .after content (blocks h limit total (rest.drop stored))
  | _ => .cut
termination_by b.length
decreasing_by all_goals simp only [List.length_cons, List.length_drop]; omega

/-- What follows a checksum that is right; nothing if it is cut off, and a fault if it is wrong. -/
def checked (content rest : Bytes) : BlockRun :=
  match takeNumber? 4 rest with
  | none             => .cut
  | some (sum, rest) => if sum = (xxh64 content).toNat % Nat.pow 2 32 then ⟨[], false, some rest⟩ else .fault

/-- The mark of a frame that is to be skipped. -/
def isSkipped (mark : Nat) : Bool := mark / 16 == 0x184D2A5

/-- The content of frames that follow one another. `fuel` bounds their number. -/
def framesContent : Nat → Buffers → Bytes → Decoded
  | 0,        _,       _ => ⟨[], false⟩
  | fuel + 1, buffers, b =>
    if b.take 4 = frameMagic then
      match frameHeader? (b.drop 4) with
      | none           => ⟨[], false⟩
      | some (h, rest) =>
        let buffers := h.buffers buffers
        let run := blocks h (h.limit? buffers) 0 rest
        match run.rest with
        | none      => ⟨run.pieces, run.broken⟩
        | some rest =>
          let finish := if h.hasChecksum then checked run.pieces.flatten rest else ⟨[], false, some rest⟩
          match finish.rest with
          | none      => ⟨run.pieces, finish.broken⟩
          | some rest =>
            let later := framesContent fuel buffers rest
            -- A fault in the header of a frame is met only by a reader that wants more.
            ⟨run.pieces ++ later.pieces, later.broken && !later.pieces.isEmpty⟩
    else match takeNumber? 4 b with
      | none              => ⟨[], false⟩
      | some (mark, rest) =>
        if isSkipped mark then
          match takeNumber? 4 rest with
          | some (n, rest) => framesContent fuel buffers (rest.drop n)
          | none           => ⟨[], false⟩
        else ⟨[], false⟩

/-- The content of frames, up to the first fault. -/
def frameContent (b : Bytes) : Decoded := framesContent (b.length + 1) ⟨0, 0⟩ b

/-- The content is enough for a reader that leaves the bytes `rest` and asks for `asked` bytes at last. It meets a fault
    after the last piece if it gets the whole piece at once. -/
def Decoded.suffices (d : Decoded) (rest : Bytes) (asked : Nat) : Bool :=
  !(d.broken && rest.isEmpty && d.pieces.getLast?.any fun p => p.length ≤ asked)

/-! ## Writing -/

/-- Stored blocks with the given content. -/
def storedBlocks : List Bytes → Bytes
  | []      => littleEndian 3 1
  | [p]     => littleEndian 3 (8 * p.length + 1) ++ p
  | p :: ps => littleEndian 3 (8 * p.length) ++ p ++ storedBlocks ps

/-- A frame with the given content: its length in eight bytes, a window of 128 KiB, stored blocks. -/
def frame (content : Bytes) : Bytes :=
  frameMagic ++ [0xC0, 0x38] ++ littleEndian 8 content.length ++ storedBlocks (partsOf (Nat.pow 2 17 - 1) content)

end JavaMend.Archive
