/-!
# A deterministic generator of 64-bit words

The state advances by an odd constant, so it runs through every word before it repeats, and each word
drawn is the mixed state. Uniform draws below a bound reject the words past the last full multiple of the
bound; they end because the run through all states comes by the state zero, whose word every bound accepts.
-/

namespace Behavior

/-- Spreads every bit of a word over all the others. -/
def mix (x : UInt64) : UInt64 :=
  let x := (x ^^^ (x >>> 30)) * 0xBF58476D1CE4E5B9
  let x := (x ^^^ (x >>> 27)) * 0x94D049BB133111EB
  x ^^^ (x >>> 31)

/-- The step from one generator state to the next. -/
def increment : UInt64 := 0x9E3779B97F4A7C15

/-- The seed of one entity's stream under a global seed. -/
def deriveSeed (seed entity stream : UInt64) : UInt64 :=
  mix (seed ^^^ mix (entity + increment) ^^^ mix stream)

/-- A generator is its current state. -/
structure Generator where
  state : UInt64
  deriving DecidableEq, Repr

namespace Generator

def advance (g : Generator) : Generator := ⟨g.state + increment⟩

/-- The word a generator draws next. -/
def word (g : Generator) : UInt64 := mix g.advance.state

def next (g : Generator) : UInt64 × Generator := (g.word, g.advance)

def next32 (g : Generator) : UInt32 × Generator := ((g.word >>> 32).toUInt32, g.advance)

/-- Draws a fraction in [0, 1) from 24 bits. -/
def nextUnit (g : Generator) : Float32 × Generator :=
  let (x, g) := g.next32
  ((x >>> 8).toFloat32 / (16777216 : UInt32).toFloat32, g)

/-- Draws the lowest bit of a word. -/
def nextBool (g : Generator) : Bool × Generator := (g.word &&& 1 == 1, g.advance)

/-! ## Draws below a bound -/

/-- The greatest multiple of the bound that a word can reach; words from here on are rejected. -/
def limit (bound : UInt64) : UInt64 := 0xFFFFFFFFFFFFFFFF - 0xFFFFFFFFFFFFFFFF % bound

/-- The inverse of `increment` among the 64-bit words. -/
def incrementInverse : UInt64 := 0xF1DE83E19937733D

/-- How many draws follow the next one until the state is zero. -/
def toZero (g : Generator) : Nat := (-g.advance.state * incrementInverse).toNat

theorem mix_zero : mix 0 = 0 := by decide

theorem increment_mul_inverse : increment * incrementInverse = 1 := by decide

theorem toZero_advance {g : Generator} (h : g.advance.state ≠ 0) : g.advance.toZero < g.toZero := by
  have unit := increment_mul_inverse
  have back : -(g.advance.state + increment) * incrementInverse
      = -g.advance.state * incrementInverse - 1 := by grind
  have ne : -g.advance.state * incrementInverse ≠ 0 := fun h0 => by
    have : -g.advance.state * incrementInverse * increment = -g.advance.state := by grind
    rw [h0] at this
    grind
  show (-(g.advance.state + increment) * incrementInverse).toNat < _
  rw [back, toZero]
  generalize -g.advance.state * incrementInverse = x at ne
  have pos : 0 < x.toNat := Nat.pos_of_ne_zero fun h0 => ne (UInt64.toNat.inj h0)
  rw [UInt64.toNat_sub_of_le] <;> simp [UInt64.le_iff_toNat_le] <;> omega

theorem limit_pos {bound : UInt64} (h : bound ≠ 0) : 0 < limit bound := by
  have pos : 0 < bound.toNat := Nat.pos_of_ne_zero fun h0 => h (UInt64.toNat.inj h0)
  have lt := bound.toNat_lt
  have rest : (0xFFFFFFFFFFFFFFFF % bound).toNat = 18446744073709551615 % bound.toNat := rfl
  have restLt := Nat.mod_lt 18446744073709551615 pos
  have whole := Nat.div_add_mod 18446744073709551615 bound.toNat
  rw [limit, UInt64.lt_iff_toNat_lt, UInt64.toNat_sub_of_le]
  · rw [rest]; simp; omega
  · rw [UInt64.le_iff_toNat_le, rest]; simp; omega

/-- Draws until a word is below the limit of the bound. -/
def draw (bound : UInt64) (h : bound ≠ 0) (g : Generator) : UInt64 × Generator :=
  if _hw : g.word < limit bound then (g.word % bound, g.advance) else draw bound h g.advance
termination_by g.toZero
decreasing_by
  refine toZero_advance fun h0 => _hw ?_
  simpa [word, h0, mix_zero] using limit_pos h

/-- A uniform draw from the numbers below the bound; the bound zero gives zero and draws nothing. -/
def below (bound : UInt64) (g : Generator) : UInt64 × Generator :=
  if h : bound = 0 then (0, g) else draw bound h g

end Generator

end Behavior
