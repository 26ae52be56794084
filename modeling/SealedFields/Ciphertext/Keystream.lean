import SealedFields.Ciphertext.FloatNoise
import SealedFields.Random.Pcg64

/-!
The noise keystream: Gaussian draws, reproducible from a seed, scaled by a standard deviation and reduced
to bytes.
-/

namespace SealedFields.Keystream

def fullTurn : Float := 2.0 * 3.141592653589793

/-- A standard normal draw from two uniform draws in `[0, 1)`, by the Box-Muller transform. -/
def normal (u v : Float) : Float := Float.sqrt (-2.0 * Float.log (1.0 - u)) * Float.cos (fullTurn * v)

/-- The first `length` units of the keystream for a seed: each is a normal draw times the deviation,
rounded down, and its magnitude modulo 256. -/
def generate (deviation : Float) (seed : Bytes) (length : Nat) : Bytes :=
  let state := Pcg64.ofSeed (Bytes.toNat (Sha256.digest seed))
  let (us, state) := Pcg64.uniforms length state
  let (vs, _) := Pcg64.uniforms length state
  List.zipWith (fun u v => floorMagnitudeByte (normal u v * deviation)) us vs

/-- Data combined with a keystream that is repeated as often as needed. -/
def cover (stream data : Bytes) : Bytes :=
  data.zipIdx.map fun (b, i) => b ^^^ stream.getD (i % stream.length) 0

theorem length_cover (stream data : Bytes) : (cover stream data).length = data.length := by simp [cover]

theorem cover_cover (stream data : Bytes) : cover stream (cover stream data) = data := by
  apply List.ext_getElem
  · simp [cover]
  · intro i h₁ h₂
    simp only [cover, List.getElem_map, List.getElem_zipIdx, Bytes.byte_xor_cancel]

end SealedFields.Keystream
