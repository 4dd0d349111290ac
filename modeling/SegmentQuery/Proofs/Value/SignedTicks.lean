import Mathlib.Data.Set.Function
import SegmentQuery.Proofs.Value.Clock

namespace SegmentQuery.Ticks

/-- The results of the steps in which the ticks of a clock time are computed, before any of them is held at the largest
number. -/
def Clock.steps (c : Clock) : List Nat :=
  let minutes := c.hours * 3600 + c.minutes * 60
  let seconds := minutes + c.seconds
  let milliseconds := seconds * 1000 + c.milliseconds
  [c.hours * 3600, c.minutes * 60, minutes, seconds, seconds * 1000, milliseconds, milliseconds * perMillisecond]

/-- No step on the way to the ticks of a clock time exceeds them. -/
theorem Clock.le_of_mem_steps {ms x : Nat} (hx : x ∈ (ofMilliseconds ms).steps) : x ≤ ms * perMillisecond := by
  simp only [steps, ofMilliseconds, perMillisecond, List.mem_cons, List.not_mem_nil, or_false] at hx ⊢
  rcases hx with rfl | rfl | rfl | rfl | rfl | rfl | rfl <;> omega

/-- If no step leaves the range, the ticks of a clock time are the exact result. -/
theorem getLast?_steps {c : Clock} (h : ∀ x ∈ c.steps, x ≤ Integer.largest) : c.steps.getLast? = some (ofClock c) := by
  have hlast : ((c.hours * 3600 + c.minutes * 60 + c.seconds) * 1000 + c.milliseconds) * perMillisecond ≤
      Integer.largest := h _ (by simp [Clock.steps])
  rw [ofClock, Nat.min_eq_right hlast]
  rfl

theorem toNat_toInt_le (n : Int64) : n.toInt.toNat ≤ Integer.largest := by
  have hlt := n.toInt_lt
  simp only [Integer.largest]
  omega

/-- A number of ticks is read from its time down to a whole millisecond, and as zero if it names no position. -/
theorem ofTime_time_toInt (n : Int64) :
    (ofTime (time n.toInt) : Int) = if n.toInt ≤ 0 then 0 else n.toInt / perMillisecond * perMillisecond := by
  by_cases hn : n.toInt ≤ 0
  · have hunset : ofTime unset = 0 := by decide
    rw [if_pos hn, time, if_pos hn, hunset, Int.natCast_zero]
  · have hcast : n.toInt = (n.toInt.toNat : Int) := by omega
    have hread := ofTime_time (toNat_toInt_le n)
    rw [if_neg hn, hcast, hread]
    push_cast
    rfl

/-- The time of a positive number of ticks is read without any step beyond the range. -/
theorem steps_of_time {n : Int64} (hn : 0 < n.toInt) :
    ∃ c, Clock.read? (time n.toInt).toList = some c ∧ (∀ x ∈ c.steps, x ≤ Integer.largest) ∧
      c.steps.getLast? = some (ofTime (time n.toInt)) := by
  have hcast : n.toInt = (n.toInt.toNat : Int) := by omega
  have hread := read?_time (n := n.toInt.toNat) (by omega) (toNat_toInt_le n)
  rw [← hcast] at hread
  have hsteps : ∀ x ∈ (Clock.ofMilliseconds (n.toInt.toNat / perMillisecond)).steps, x ≤ Integer.largest := by
    intro x hx
    calc
      x ≤ n.toInt.toNat / perMillisecond * perMillisecond := Clock.le_of_mem_steps hx
      _ ≤ n.toInt.toNat := Nat.div_mul_le_self _ _
      _ ≤ Integer.largest := toNat_toInt_le n
  refine ⟨_, hread, hsteps, ?_⟩
  rw [ofTime, hread, Option.elim_some, getLast?_steps hsteps]

/-- The numbers of ticks that name a position without a rest: positive, and whole milliseconds. -/
def positions : Set Int64 := {n | 0 < n.toInt ∧ (perMillisecond : Int) ∣ n.toInt}

theorem leftInvOn_time :
    Set.LeftInvOn (fun s => Int64.ofNat (ofTime s)) (fun n : Int64 => time n.toInt) positions := by
  rintro n ⟨hpos, hwhole⟩
  have hread := ofTime_time_toInt n
  rw [if_neg (by omega), Int.ediv_mul_cancel hwhole] at hread
  have hlt := n.toInt_lt
  change Int64.ofNat (ofTime (time n.toInt)) = n
  rw [← Int64.toInt_inj, Int64.toInt_ofNat_of_lt (by omega), hread]

/-- Every signed number of ticks is read from its time down to a whole millisecond, and as zero if it is not positive; no
step of reading a time leaves the range of such numbers. So reading undoes showing for all positive whole milliseconds,
and no two of them are shown alike. -/
theorem ofTime_time_signed :
    (∀ n : Int64, (ofTime (time n.toInt) : Int) =
        if n.toInt ≤ 0 then 0 else n.toInt / perMillisecond * perMillisecond) ∧
      (∀ n : Int64, 0 < n.toInt →
        ∃ c, Clock.read? (time n.toInt).toList = some c ∧ (∀ x ∈ c.steps, x ≤ Integer.largest) ∧
          c.steps.getLast? = some (ofTime (time n.toInt))) ∧
      Set.LeftInvOn (fun s => Int64.ofNat (ofTime s)) (fun n : Int64 => time n.toInt) positions ∧
      Set.InjOn (fun n : Int64 => time n.toInt) positions :=
  ⟨ofTime_time_toInt, fun _ => steps_of_time, leftInvOn_time, leftInvOn_time.injOn⟩

/-- The largest number of ticks has a time far beyond any clock, and is read down to its last whole millisecond. -/
theorem ofTime_time_signed_of_largest :
    time Int64.maxValue.toInt = "256204778:48:05.477" ∧ ofTime "256204778:48:05.477" = 9223372036854770000 ∧
      (∃ c, Clock.read? "256204778:48:05.477".toList = some c ∧ (∀ x ∈ c.steps, x ≤ Integer.largest) ∧
        c.steps.getLast? = some (ofTime "256204778:48:05.477")) ∧
      Int64.ofNat (ofTime (time (Int64.toInt 9223372036854770000))) = 9223372036854770000 := by
  obtain ⟨hread, hsteps, hinverse, -⟩ := ofTime_time_signed
  have hshown : time Int64.maxValue.toInt = "256204778:48:05.477" := by decide +kernel
  refine ⟨hshown, ?_, ?_, hinverse ⟨by decide, by decide⟩⟩
  · have hlargest := hread Int64.maxValue
    rw [hshown] at hlargest
    exact Int.ofNat_inj.mp (hlargest.trans (by decide))
  · rw [← hshown]
    exact hsteps Int64.maxValue (by decide)

end SegmentQuery.Ticks
