import JavaMend.Text.Bytes

/-!
# `Archive.Digest` — BLAKE3

The digest of a sequence of bytes: chunks of 1024 bytes are compressed block by block, and their chaining values are
paired level by level until one node remains, whose output is the digest.

## Contents
- **Words.** `wordsOf`, `bytesOf`.
- **Compression.** `iv`, `mix`, `round`, `compress`.
- **Nodes.** `Node`, `chunkNode`, `parent`, `pairUp`, `rootNode`.
- **The digest.** `blake3`.
-/

namespace JavaMend.Archive

open JavaMend

/-! ## Words -/

/-- Cut a list into parts of `n + 1` items, the last one possibly shorter. -/
def partsOf {α : Type} (n : Nat) : List α → List (List α)
  | []     => []
  | x :: l => (x :: l.take n) :: partsOf n (l.drop n)
termination_by l => l.length
decreasing_by simp only [List.length_cons, List.length_drop]; omega

/-- The word of up to four bytes, the first one lowest. -/
def wordOf (b : Bytes) : UInt32 := b.foldr (fun x acc => acc <<< 8 ||| x.toUInt32) 0

/-- The sixteen words of a block; missing bytes are zero. -/
def wordsOf (b : Bytes) : Array UInt32 :=
  let ws := (partsOf 3 b).map wordOf
  (ws ++ List.replicate (16 - ws.length) 0).toArray

/-- The bytes of words, the lowest byte of each first. -/
def bytesOf (ws : List UInt32) : Bytes :=
  ws.flatMap fun (w : UInt32) => [w.toUInt8, (w >>> 8).toUInt8, (w >>> 16).toUInt8, (w >>> 24).toUInt8]

/-! ## Compression -/

/-- The initial chaining value. -/
def iv : List UInt32 :=
  [0x6A09E667, 0xBB67AE85, 0x3C6EF372, 0xA54FF53A, 0x510E527F, 0x9B05688C, 0x1F83D9AB, 0x5BE0CD19]

/-- The order in which a round takes the words that the round before it took in turn. -/
def schedule : List Nat := [2, 6, 3, 10, 7, 0, 4, 13, 1, 11, 12, 5, 9, 14, 15, 8]

/-- Rotate a word to the right. -/
def rotateRight (w n : UInt32) : UInt32 := w >>> n ||| w <<< (32 - n)

/-- Mix two words into four places of the state. -/
def mix (s : Array UInt32) (a b c d : Nat) (x y : UInt32) : Array UInt32 :=
  let a1 := s.getD a 0 + s.getD b 0 + x
  let d1 := rotateRight (s.getD d 0 ^^^ a1) 16
  let c1 := s.getD c 0 + d1
  let b1 := rotateRight (s.getD b 0 ^^^ c1) 12
  let a2 := a1 + b1 + y
  let d2 := rotateRight (d1 ^^^ a2) 8
  let c2 := c1 + d2
  let b2 := rotateRight (b1 ^^^ c2) 7
  (((s.setIfInBounds a a2).setIfInBounds b b2).setIfInBounds c c2).setIfInBounds d d2

/-- The places that a round mixes: the columns, then the diagonals. -/
def places : List (Nat × Nat × Nat × Nat) :=
  [(0, 4, 8, 12), (1, 5, 9, 13), (2, 6, 10, 14), (3, 7, 11, 15),
    (0, 5, 10, 15), (1, 6, 11, 12), (2, 7, 8, 13), (3, 4, 9, 14)]

/-- Mix the sixteen words of a block into the state. -/
def round (s m : Array UInt32) : Array UInt32 :=
  places.zipIdx.foldl
    (fun s ((a, b, c, d), i) => mix s a b c d (m.getD (2 * i) 0) (m.getD (2 * i + 1) 0)) s

/-- Put the words of a block in the order of the next round. -/
def permute (m : Array UInt32) : Array UInt32 := (schedule.map fun i => m.getD i 0).toArray

/-- Seven rounds. -/
def rounds : Nat → Array UInt32 → Array UInt32 → Array UInt32
  | 0,     s, _ => s
  | n + 1, s, m => rounds n (round s m) (permute m)

/-! ## Nodes -/

/-- What is compressed to give a chaining value or the digest. -/
structure Node where
  chain : List UInt32
  block : Array UInt32
  counter : Nat
  length : Nat
  flags : UInt32

/-- The first eight words that a node is compressed to. -/
def Node.compress (n : Node) (flags : UInt32) : List UInt32 :=
  -- The counter takes two words, the lower one first.
  let low := UInt32.ofNat (n.counter % Nat.pow 2 32)
  let high := UInt32.ofNat (n.counter / Nat.pow 2 32)
  let start := n.chain ++ iv.take 4 ++ [low, high, UInt32.ofNat n.length, n.flags ||| flags]
  let s := (rounds 7 start.toArray n.block).toList
  (s.take 8).zipWith (· ^^^ ·) (s.drop 8)

/-- The chaining value of a node. -/
def Node.chaining (n : Node) : List UInt32 := n.compress 0

/-- The first block of a chunk. -/
def flagStart : UInt32 := 1

/-- The last block of a chunk. -/
def flagEnd : UInt32 := 2

/-- A node above others. -/
def flagParent : UInt32 := 4

/-- The topmost node. -/
def flagRoot : UInt32 := 8

/-- The node of the last block of a chunk. -/
def blocksNode (counter : Nat) (chain : List UInt32) (first : UInt32) : List Bytes → Node
  | []      => ⟨chain, wordsOf [], counter, 0, first ||| flagEnd⟩
  | [b]     => ⟨chain, wordsOf b, counter, b.length, first ||| flagEnd⟩
  | b :: bs =>
    let node : Node := ⟨chain, wordsOf b, counter, b.length, first⟩
    blocksNode counter node.chaining 0 bs

/-- The node of a chunk. -/
def chunkNode (chunk : Bytes) (counter : Nat) : Node := blocksNode counter iv flagStart (partsOf 63 chunk)

/-- The node above two nodes. -/
def parent (a b : Node) : Node := ⟨iv, (a.chaining ++ b.chaining).toArray, 0, 64, flagParent⟩

/-- The nodes of the next level; an odd one at the end goes up as it is. -/
def pairUp : List Node → List Node
  | a :: b :: ns => parent a b :: pairUp ns
  | ns           => ns

theorem length_pairUp_le (ns : List Node) : (pairUp ns).length ≤ ns.length := by
  fun_induction pairUp ns with
  | case1 a b ns ih => simp only [List.length_cons]; omega
  | case2 => simp

/-- The topmost node. -/
def rootNode : List Node → Node
  | []           => chunkNode [] 0
  | [n]          => n
  | a :: b :: ns => rootNode (pairUp (a :: b :: ns))
termination_by ns => ns.length
decreasing_by
  have := length_pairUp_le ns
  simp only [pairUp, List.length_cons]
  omega

/-! ## The digest -/

/-- The digest of a sequence of bytes: 32 bytes. -/
def blake3 (b : Bytes) : Bytes :=
  let chunks := (partsOf 1023 b).zipIdx.map fun (chunk, i) => chunkNode chunk i
  bytesOf ((rootNode chunks).compress flagRoot)

end JavaMend.Archive
