/-!
# BLAKE3

The hash function BLAKE3, for the fingerprint in the name of a run. The bytes
are cut into chunks of 1024 and these into blocks of 64; the chunks are the
leaves of a binary tree, whose left part is the largest full one.

* `Digest.blake3`: the first 32 bytes of the hash.
-/

namespace Provision.Digest

/-- The initial words. -/
def initial : Array UInt32 :=
  #[0x6A09E667, 0xBB67AE85, 0x3C6EF372, 0xA54FF53A, 0x510E527F, 0x9B05688C, 0x1F83D9AB, 0x5BE0CD19]

/-- Where each word of a block comes from in the next round. -/
def permutation : Array Nat := #[2, 6, 3, 10, 7, 0, 4, 13, 1, 11, 12, 5, 9, 14, 15, 8]

/-- The word rotated to the right. -/
def rotateRight (x : UInt32) (n : UInt32) : UInt32 := (x >>> n) ||| (x <<< (32 - n))

/-- The quarter round on the words at `a`, `b`, `c` and `d`. -/
def quarter (v : Array UInt32) (a b c d : Nat) (x y : UInt32) : Array UInt32 :=
  let at' := fun i => v.getD i 0
  let va := at' a + at' b + x
  let vd := rotateRight (at' d ^^^ va) 16
  let vc := at' c + vd
  let vb := rotateRight (at' b ^^^ vc) 12
  let va := va + vb + y
  let vd := rotateRight (vd ^^^ va) 8
  let vc := vc + vd
  let vb := rotateRight (vb ^^^ vc) 7
  (((v.setIfInBounds a va).setIfInBounds b vb).setIfInBounds c vc).setIfInBounds d vd

/-- One round: the columns, then the diagonals. -/
def round (v m : Array UInt32) : Array UInt32 :=
  let w := fun i => m.getD i 0
  let v := quarter v 0 4 8 12 (w 0) (w 1)
  let v := quarter v 1 5 9 13 (w 2) (w 3)
  let v := quarter v 2 6 10 14 (w 4) (w 5)
  let v := quarter v 3 7 11 15 (w 6) (w 7)
  let v := quarter v 0 5 10 15 (w 8) (w 9)
  let v := quarter v 1 6 11 12 (w 10) (w 11)
  let v := quarter v 2 7 8 13 (w 12) (w 13)
  quarter v 3 4 9 14 (w 14) (w 15)

/-- So many rounds, with the words of the block permuted in between. -/
def rounds : Nat → Array UInt32 → Array UInt32 → Array UInt32
  | 0, v, _ => v
  | n + 1, v, m => rounds n (round v m) (permutation.map fun i => m.getD i 0)

/-- The input of one compression. -/
structure Block where
  chain : Array UInt32
  words : Array UInt32
  counter : Nat
  length : Nat
  flags : UInt32

/-- The compression of a block: eight words, and more flags than its own. -/
def Block.compress (b : Block) (extra : UInt32) : Array UInt32 :=
  let v := b.chain ++ initial.extract 0 4 ++
    #[.ofNat b.counter, .ofNat (b.counter >>> 32), .ofNat b.length, b.flags ||| extra]
  let v := rounds 7 v b.words
  (Array.range 8).map fun i => v.getD i 0 ^^^ v.getD (i + 8) 0

/-- The words of at most 64 bytes, with zeros after them. -/
def wordsOf (bytes : List UInt8) : Array UInt32 :=
  let b := bytes.toArray
  let byte := fun i => (b.getD i 0).toUInt32
  (Array.range 16).map fun i =>
    byte (4 * i) ||| (byte (4 * i + 1) <<< 8) ||| (byte (4 * i + 2) <<< 16) |||
      (byte (4 * i + 3) <<< 24)

/-- The pieces of a list with at most `size` elements each; at least one. -/
def piecesOf {α : Type} (size : Nat) (xs : List α) : List (List α) :=
  let count := (xs.length + size - 1) / size
  match (List.range count).map fun i => (xs.drop (i * size)).take size with
  | [] => [[]]
  | pieces => pieces

/-- The last block of a chunk, with the chain up to it. -/
def lastBlock (counter : Nat) (chain : Array UInt32) (start : UInt32) : List (List UInt8) → Block
  | [] => ⟨chain, wordsOf [], counter, 0, start ||| 2⟩
  | [b] => ⟨chain, wordsOf b, counter, b.length, start ||| 2⟩
  | b :: rest =>
    lastBlock counter ((Block.mk chain (wordsOf b) counter b.length start).compress 0) 0 rest

/-- The largest power of two below a number above one. -/
def leftSize (n : Nat) : Nat := 1 <<< Nat.log2 (n - 1)

/-- The block at the top of the tree over some chunks, the first of them the
`counter`th. The tree is at most as deep as it has chunks. -/
def tree : Nat → Nat → List (List UInt8) → Block
  | 0, counter, chunks => lastBlock counter initial 1 (piecesOf 64 (chunks.headD []))
  | fuel + 1, counter, chunks =>
    if chunks.length ≤ 1 then lastBlock counter initial 1 (piecesOf 64 (chunks.headD []))
    else
      let n := leftSize chunks.length
      let left := (tree fuel counter (chunks.take n)).compress 0
      let right := (tree fuel (counter + n) (chunks.drop n)).compress 0
      ⟨initial, left ++ right, 0, 64, 4⟩

/-- The first 32 bytes of the hash. -/
def blake3 (bytes : List UInt8) : List UInt8 :=
  let chunks := piecesOf 1024 bytes
  ((tree chunks.length 0 chunks).compress 8).toList.flatMap fun (w : UInt32) =>
    [w.toUInt8, (w >>> 8).toUInt8, (w >>> 16).toUInt8, (w >>> 24).toUInt8]

end Provision.Digest
