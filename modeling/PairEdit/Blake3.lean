import PairEdit.Bytes

/-!
# BLAKE3

The hash function with an output of 32 bytes.  The input is cut into chunks of
1024 bytes and each chunk into blocks of 64; a chunk is compressed block by
block, and the chunks are the leaves of a binary tree in which every inner node
compresses the chaining values of its two children.  Joining neighbours level
by level, the last node going up alone when their number is odd, gives the tree
whose left subtrees are complete.
-/

namespace PairEdit.Blake3

/-- Eight words that one compression hands on to the next. -/
abbrev ChainingValue := Vector UInt32 8

/-- The initial chaining value. -/
def initial : ChainingValue :=
  #v[0x6A09E667, 0xBB67AE85, 0x3C6EF372, 0xA54FF53A,
     0x510E527F, 0x9B05688C, 0x1F83D9AB, 0x5BE0CD19]

/-- The flag of the first block of a chunk. -/
def chunkStart : UInt32 := 1
/-- The flag of the last block of a chunk. -/
def chunkEnd : UInt32 := 2
/-- The flag of an inner node. -/
def innerNode : UInt32 := 4
/-- The flag of the topmost compression. -/
def topmost : UInt32 := 8

/-- Rotation to the right. -/
def rotateRight (w n : UInt32) : UInt32 := (w >>> n) ||| (w <<< (32 - n))

/-- Mix two message words into four words of the state. -/
def mix (v : Vector UInt32 16) (a b c d : Fin 16) (x y : UInt32) : Vector UInt32 16 :=
  let v := v.set a (v[a] + v[b] + x)
  let v := v.set d (rotateRight (v[d] ^^^ v[a]) 16)
  let v := v.set c (v[c] + v[d])
  let v := v.set b (rotateRight (v[b] ^^^ v[c]) 12)
  let v := v.set a (v[a] + v[b] + y)
  let v := v.set d (rotateRight (v[d] ^^^ v[a]) 8)
  let v := v.set c (v[c] + v[d])
  v.set b (rotateRight (v[b] ^^^ v[c]) 7)

/-- One round: the columns of the state, then its diagonals. -/
def round (v m : Vector UInt32 16) : Vector UInt32 16 :=
  let v := mix v 0 4 8 12 m[0] m[1]
  let v := mix v 1 5 9 13 m[2] m[3]
  let v := mix v 2 6 10 14 m[4] m[5]
  let v := mix v 3 7 11 15 m[6] m[7]
  let v := mix v 0 5 10 15 m[8] m[9]
  let v := mix v 1 6 11 12 m[10] m[11]
  let v := mix v 2 7 8 13 m[12] m[13]
  mix v 3 4 9 14 m[14] m[15]

/-- The order in which the next round takes the message words. -/
def permute (m : Vector UInt32 16) : Vector UInt32 16 :=
  #v[m[2], m[6], m[3], m[10], m[7], m[0], m[4], m[13],
     m[1], m[11], m[12], m[5], m[9], m[14], m[15], m[8]]

/-- As many rounds as asked for, the message being permuted between them. -/
def rounds : Nat → Vector UInt32 16 → Vector UInt32 16 → Vector UInt32 16
  | 0, v, _ => v
  | n + 1, v, m => rounds n (round v m) (permute m)

/-- A compression that is still to be done: what it is fed with. -/
structure Node where
  input : ChainingValue
  block : Vector UInt32 16
  /-- The number of the chunk, zero for an inner node. -/
  counter : Nat
  /-- How many bytes of the block are message. -/
  length : Nat
  flags : UInt32

/-- The compression, with further flags added. -/
def Node.compress (n : Node) (flags : UInt32) : ChainingValue :=
  let h := n.input
  let v := rounds 7
    #v[h[0], h[1], h[2], h[3], h[4], h[5], h[6], h[7],
       initial[0], initial[1], initial[2], initial[3],
       UInt32.ofNat n.counter, UInt32.ofNat (n.counter >>> 32),
       UInt32.ofNat n.length, n.flags ||| flags] n.block
  Vector.ofFn fun i => v[i.val] ^^^ v[i.val + 8]

/-- A word from its four bytes, the least significant first. -/
def word (a b c d : UInt8) : UInt32 :=
  a.toUInt32 ||| (b.toUInt32 <<< 8) ||| (c.toUInt32 <<< 16) ||| (d.toUInt32 <<< 24)

/-- The bytes of a word, the least significant first. -/
def wordBytes (w : UInt32) : Bytes :=
  [w.toUInt8, (w >>> 8).toUInt8, (w >>> 16).toUInt8, (w >>> 24).toUInt8]

/-- The words of a byte string whose length is a multiple of four. -/
def words : Bytes → List UInt32
  | a :: b :: c :: d :: rest => word a b c d :: words rest
  | _ => []

/-- A block of at most 64 bytes as sixteen words, filled up with zeros. -/
def blockWords (bytes : Bytes) : Vector UInt32 16 :=
  let ws := (words (bytes ++ List.replicate (64 - bytes.length) 0)).toArray
  Vector.ofFn fun i => ws.getD i 0

/-- Pieces of `size` bytes, the last one with what remains; at least one. -/
def pieces (size : Nat) (positive : 0 < size) (bytes : Bytes) : List Bytes :=
  match _h : bytes.drop size with
  | [] => [bytes]
  | b :: rest => bytes.take size :: pieces size positive (b :: rest)
termination_by bytes.length
decreasing_by
  have := congrArg List.length _h
  simp at this
  simp
  omega

/-- Compress the blocks of chunk `counter` up to its last one. -/
def chunkNode (counter : Nat) (input : ChainingValue) (flags : UInt32) : List Bytes → Node
  | [] => ⟨input, blockWords [], counter, 0, flags ||| chunkEnd⟩
  | [last] => ⟨input, blockWords last, counter, last.length, flags ||| chunkEnd⟩
  | block :: rest =>
      let here : Node := ⟨input, blockWords block, counter, block.length, flags⟩
      chunkNode counter (here.compress 0) 0 rest

/-- The leaf for a chunk. -/
def leaf (bytes : Bytes) (counter : Nat) : Node :=
  chunkNode counter initial chunkStart (pieces 64 (by decide) bytes)

/-- The inner node over two nodes. -/
def join (left right : Node) : Node :=
  ⟨initial, (left.compress 0 ++ right.compress 0).cast rfl, 0, 64, innerNode⟩

/-- Join neighbours; a last node without neighbour stays. -/
def joinPairs : List Node → List Node
  | left :: right :: rest => join left right :: joinPairs rest
  | nodes => nodes

theorem length_joinPairs_le (nodes : List Node) :
    (joinPairs nodes).length ≤ nodes.length := by
  fun_induction joinPairs nodes with
  | case1 left right rest ih => simp only [List.length_cons]; omega
  | case2 nodes => exact Nat.le_refl _

/-- The topmost node over a level that starts with `first`. -/
def top (first : Node) : List Node → Node
  | [] => first
  | second :: more => top (join first second) (joinPairs more)
termination_by others => others.length
decreasing_by
  have := length_joinPairs_le more
  simp
  omega

/-- The 32 bytes of the hash. -/
def hash (bytes : Bytes) : Bytes :=
  match (pieces 1024 (by decide) bytes).mapIdx fun i chunk => leaf chunk i with
  | [] => []
  | first :: others => ((top first others).compress topmost).toList.flatMap wordBytes

end PairEdit.Blake3
