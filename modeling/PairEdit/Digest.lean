import PairEdit.Blake3
import PairEdit.Hex

/-!
# Digests of texts

Two parties that want to know whether their texts agree compare digests.  The
hashed bytes start with a fixed label, so that a digest of a text is never the
hash of something else.
-/

namespace PairEdit

/-- The 32 bytes that stand for a text. -/
structure Digest where
  bytes : Bytes
deriving DecidableEq, Repr

namespace Digest

/-- What is hashed before the text. -/
def label : Text := "docshare-document-v0:".toList

/-- The digest of a text. -/
def ofText (text : Text) : Digest :=
  ⟨Blake3.hash (Utf8.encode label ++ Utf8.encode text)⟩

/-- All digits. -/
def hex (d : Digest) : List Char := Hex.encode d.bytes

/-- The first sixteen digits, enough to tell digests apart by eye. -/
def describe (d : Digest) : String :=
  let short := String.ofList (d.hex.take 16)
  s!"DocumentDigest({short})"

end Digest

/-- The outcome of comparing a text with the digest the peer reports. -/
inductive Agreement where
  | agree
  | differ (ours theirs : Digest)
deriving DecidableEq, Repr

/-- Compare a text with the digest the peer reports. -/
def Agreement.of (text : Text) (theirs : Digest) : Agreement :=
  let ours := Digest.ofText text
  if ours = theirs then .agree else .differ ours theirs

end PairEdit
