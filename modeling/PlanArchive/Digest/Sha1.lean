import PlanArchive.Text.Hex

/-!
# SHA-1

The message is padded to blocks of sixteen 32-bit words. Each block is stretched to eighty words
and folded into the five words of the state.
-/

namespace PlanArchive.Digest.Sha1

structure State where
  a : UInt32
  b : UInt32
  c : UInt32
  d : UInt32
  e : UInt32

def start : State := ⟨0x67452301, 0xEFCDAB89, 0x98BADCFE, 0x10325476, 0xC3D2E1F0⟩

def rotate (x n : UInt32) : UInt32 := (x <<< n) ||| (x >>> (32 - n))

/-- The octets of a number of 64 bits, most significant first. -/
def wide (n : Nat) : Bytes := (List.range 8).map fun i => UInt8.ofNat (n >>> (8 * (7 - i)))

def pad (message : Bytes) : Bytes :=
  message ++ 0x80 :: List.replicate ((119 - message.length % 64) % 64) 0 ++
    wide (8 * message.length)

def words : Bytes → List UInt32
  | a :: b :: c :: d :: rest =>
    ((a.toUInt32 <<< 24) ||| (b.toUInt32 <<< 16) ||| (c.toUInt32 <<< 8) ||| d.toUInt32) ::
      words rest
  | _ => []

def blocks : List UInt32 → List (List UInt32)
  | [] => []
  | w :: rest => (w :: rest.take 15) :: blocks (rest.drop 15)
  termination_by ws => ws.length
  decreasing_by simp only [List.length_drop, List.length_cons]; omega

/-- One more word in front of the words so far, the latest first. -/
def stretch (latest : List UInt32) : List UInt32 :=
  rotate (latest.getD 2 0 ^^^ latest.getD 7 0 ^^^ latest.getD 13 0 ^^^ latest.getD 15 0) 1 :: latest

def schedule (block : List UInt32) : List UInt32 := (Nat.repeat stretch 64 block.reverse).reverse

/-- The mixing function and the constant of a round. -/
def mix (round : Nat) (b c d : UInt32) : UInt32 × UInt32 :=
  if round < 20 then ((b &&& c) ||| (~~~b &&& d), 0x5A827999)
  else if round < 40 then (b ^^^ c ^^^ d, 0x6ED9EBA1)
  else if round < 60 then ((b &&& c) ||| (b &&& d) ||| (c &&& d), 0x8F1BBCDC)
  else (b ^^^ c ^^^ d, 0xCA62C1D6)

def step (s : State) (w : UInt32) (round : Nat) : State :=
  let (f, k) := mix round s.b s.c s.d
  ⟨rotate s.a 5 + f + s.e + k + w, s.a, rotate s.b 30, s.c, s.d⟩

def rounds : Nat → State → List UInt32 → State
  | _, s, [] => s
  | i, s, w :: rest => rounds (i + 1) (step s w i) rest

def compress (s : State) (block : List UInt32) : State :=
  let t := rounds 0 s (schedule block)
  ⟨s.a + t.a, s.b + t.b, s.c + t.c, s.d + t.d, s.e + t.e⟩

def State.bytes (s : State) : Bytes :=
  [s.a, s.b, s.c, s.d, s.e].flatMap fun (w : UInt32) =>
    [(w >>> 24).toUInt8, (w >>> 16).toUInt8, (w >>> 8).toUInt8, w.toUInt8]

def digest (message : Bytes) : Bytes := ((blocks (words (pad message))).foldl compress start).bytes

/-- The digest in forty lower-case hexadecimal digits. -/
def hex (message : Bytes) : String := Text.Hex.ofBytes (digest message)

end PlanArchive.Digest.Sha1
