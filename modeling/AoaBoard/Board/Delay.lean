import Mathlib.Data.UInt
import Mathlib.Logic.Function.Basic
import Mathlib.Tactic.Ring

/-!
# The delay of a timer

`delayMs` up to the loop that waits for the match of the started timer. The four
branches for the timers are alike, and each of them writes the match register of
timer 0. A write to `IR` clears the flags it names, and `none` is a division by
zero.
-/

namespace AoaBoard.Board.Delay

structure Timer where
  ir : UInt32
  tcr : UInt32
  pr : UInt32
  mcr : UInt32
  mr0 : UInt32
  deriving DecidableEq

inductive TimerName
  | tim0
  | tim1
  | tim2
  | tim3
  deriving DecidableEq

def TimerName.num : TimerName → UInt8
  | .tim0 => 0
  | .tim1 => 1
  | .tim2 => 2
  | .tim3 => 3

abbrev Timers := TimerName → Timer

def divide (a b : UInt32) : Option UInt32 := if b = 0 then none else some (a / b)

def update (r : Timers) (t : TimerName) (f : Timer → Timer) : Timers :=
  Function.update r t (f (r t))

def delayOn (t : TimerName) (r : Timers) (systemCoreClock delayInMs : UInt32) : Option Timers := do
  let r := update r t fun tim => { tim with tcr := 0x02, pr := 0x00 }
  let perSecond ← divide 1000 delayInMs
  let mr0 ← divide (systemCoreClock / 4) perSecond
  -- `LPC_TIM0` in every branch
  let r := update r .tim0 fun tim => { tim with mr0 := mr0 }
  return update r t fun tim => { tim with ir := tim.ir &&& ~~~0xff, mcr := 0x04, tcr := 0x01 }

def delayMs (r : Timers) (systemCoreClock : UInt32) (timerNum : UInt8) (delayInMs : UInt32) :
    Option Timers :=
  if timerNum = 0 then delayOn .tim0 r systemCoreClock delayInMs
  else if timerNum = 1 then delayOn .tim1 r systemCoreClock delayInMs
  else if timerNum = 2 then delayOn .tim2 r systemCoreClock delayInMs
  else if timerNum = 3 then delayOn .tim3 r systemCoreClock delayInMs
  else some r

def ticks (systemCoreClock delayInMs : UInt32) : ℕ :=
  systemCoreClock.toNat / 4 * delayInMs.toNat / 1000

/-- Timer `t` is started for the delay, and the other timers are as before. -/
def Programmed (t : TimerName) (r : Timers) (systemCoreClock delayInMs : UInt32)
    (r' : Option Timers) : Prop :=
  ∃ s, r' = some s ∧ (s t).tcr = 0x01 ∧ (s t).mr0.toNat = ticks systemCoreClock delayInMs ∧
    ∀ u, u ≠ t → s u = r u

/-- Rounding in both divisions loses nothing. -/
def Exact (x d : ℕ) : Prop := x / (1000 / d) * (1000 % d) ≤ x % (1000 / d) * d

instance decidableExact (x d : ℕ) : Decidable (Exact x d) := Nat.decLe _ _

/-- The delay is at most a second, and either timer 0 is selected and no rounding is lost, or
the match registers of the selected timer and of timer 0 hold already what they should. -/
def Suits (t : TimerName) (r : Timers) (systemCoreClock delayInMs : UInt32) : Prop :=
  let x := systemCoreClock.toNat / 4
  delayInMs.toNat ≤ 1000 ∧
    if t = .tim0 then Exact x delayInMs.toNat
    else (r t).mr0.toNat = ticks systemCoreClock delayInMs ∧
      (r .tim0).mr0.toNat = x / (1000 / delayInMs.toNat)

instance decidableSuits (t : TimerName) (r : Timers) (systemCoreClock delayInMs : UInt32) :
    Decidable (Suits t r systemCoreClock delayInMs) :=
  inferInstanceAs (Decidable (_ ∧ if t = .tim0 then Exact _ _ else _ ∧ _))

theorem div_div_eq_mul_div_iff {x n d : ℕ} (hd : 0 < d) (hle : d ≤ n) :
    x / (n / d) = x * d / n ↔ x / (n / d) * (n % d) ≤ x % (n / d) * d := by
  have hq : 0 < n / d := Nat.div_pos hle hd
  have hn : 0 < n := lt_of_lt_of_le hd hle
  have hrest : x % (n / d) * d < n / d * d := Nat.mul_lt_mul_of_pos_right (Nat.mod_lt x hq) hd
  have hnd := Nat.div_add_mod n d
  have hx := Nat.div_add_mod x (n / d)
  generalize n / d = q at *
  generalize x / q = a at *
  generalize x % q = t at *
  generalize n % d = s at *
  have hproduct : x * d + a * s = a * n + t * d := by
    rw [← hx, ← hnd]
    ring
  have hbound : t * d < n := by
    rw [Nat.mul_comm q d] at hrest
    omega
  rw [eq_comm, Nat.div_eq_iff hn]
  constructor
  · rintro ⟨hlow, -⟩
    omega
  · intro h
    exact ⟨by omega, by omega⟩

theorem divide_eq_some {a b : UInt32} (h : b ≠ 0) : divide a b = some (a / b) := if_neg h

def quotient (systemCoreClock delayInMs : UInt32) : UInt32 :=
  systemCoreClock / 4 / (1000 / delayInMs)

theorem quotient_toNat (systemCoreClock delayInMs : UInt32) :
    (quotient systemCoreClock delayInMs).toNat =
      systemCoreClock.toNat / 4 / (1000 / delayInMs.toNat) := by
  rw [quotient, UInt32.toNat_div, UInt32.toNat_div, UInt32.toNat_div]
  rfl

theorem delayMs_eq (t : TimerName) (r : Timers) (systemCoreClock delayInMs : UInt32) :
    delayMs r systemCoreClock t.num delayInMs =
      delayOn t r systemCoreClock delayInMs := by
  cases t <;> rfl

theorem delayOn_eq {t : TimerName} {r : Timers} {systemCoreClock delayInMs : UInt32}
    (hpos : 1 ≤ delayInMs.toNat) :
    delayOn t r systemCoreClock delayInMs =
      if delayInMs.toNat ≤ 1000 then
        some fun u =>
          let q := quotient systemCoreClock delayInMs
          let mr0 := if u = .tim0 then q else (r u).mr0
          if u = t then ⟨(r u).ir &&& ~~~0xff, 0x01, 0x00, 0x04, mr0⟩ else { r u with mr0 := mr0 }
      else none := by
  have hne : delayInMs ≠ 0 := by
    rintro rfl
    exact absurd hpos (by decide)
  have hzero : 1000 / delayInMs = 0 ↔ ¬ delayInMs.toNat ≤ 1000 := by
    rw [← UInt32.toNat_inj, UInt32.toNat_div, UInt32.toNat_zero]
    change 1000 / delayInMs.toNat = 0 ↔ _
    rw [Nat.div_eq_zero_iff]
    omega
  simp only [delayOn, divide_eq_some hne, Option.bind_eq_bind, Option.bind_some, Option.pure_def]
  split_ifs with hle
  · have hquotient := divide_eq_some (a := systemCoreClock / 4) (mt hzero.mp (not_not.mpr hle))
    simp only [hquotient, Option.bind_some, Option.some.injEq]
    funext u
    simp only [update, Function.update_apply, quotient]
    by_cases hu : u = t <;> by_cases ht : t = .tim0 <;> by_cases hz : u = .tim0 <;> simp_all
  · simp [divide, hzero.mpr hle]

theorem programmed_some {t : TimerName} {r s : Timers} {systemCoreClock delayInMs : UInt32} :
    Programmed t r systemCoreClock delayInMs (some s) ↔ (s t).tcr = 0x01 ∧
      (s t).mr0.toNat = ticks systemCoreClock delayInMs ∧ ∀ u, u ≠ t → s u = r u := by
  constructor
  · rintro ⟨s', hs, hprogrammed⟩
    rw [Option.some.inj hs]
    exact hprogrammed
  · exact fun h => ⟨s, rfl, h⟩

/-- For every timer, every clock and every delay of at least a millisecond, the delay asked for
is programmed if and only if `Suits` holds. -/
theorem delay_programmed_iff (t : TimerName) (r : Timers) (systemCoreClock : UInt32)
    {delayInMs : UInt32} (hpos : 1 ≤ delayInMs.toNat) :
    Programmed t r systemCoreClock delayInMs
        (delayMs r systemCoreClock t.num delayInMs) ↔
      Suits t r systemCoreClock delayInMs := by
  rw [delayMs_eq, delayOn_eq hpos, Suits]
  by_cases hle : delayInMs.toNat ≤ 1000
  swap
  · rw [if_neg hle]
    exact iff_of_false (fun ⟨_, hsome, _⟩ => absurd hsome (by simp)) fun h => hle h.1
  rw [if_pos hle, programmed_some]
  simp only [if_true, true_and, hle]
  by_cases ht : t = .tim0
  · subst ht
    simp only [if_true, quotient_toNat]
    rw [ticks, div_div_eq_mul_div_iff hpos hle, Exact]
    refine and_iff_left fun u hu => ?_
    simp only [if_neg hu]
  · simp only [if_neg ht, ← quotient_toNat, UInt32.toNat_inj]
    refine and_congr_right fun _ => ?_
    constructor
    · intro h
      have hzero := congrArg Timer.mr0 (h .tim0 (Ne.symm ht))
      simpa [Ne.symm ht] using hzero.symm
    · intro hzero u hu
      by_cases hu0 : u = .tim0
      · subst hu0
        simp [hu, ← hzero]
      · simp only [if_neg hu, if_neg hu0]

def reset : Timers := fun _ => ⟨0, 0, 0, 0, 0⟩

theorem delay_programmed_ten_ms :
    Programmed .tim0 reset 100000000 10 (delayMs reset 100000000 0 10) :=
  (delay_programmed_iff .tim0 reset 100000000 (by decide)).mpr (by decide +kernel)

/-- A delay of three milliseconds gets `75075` ticks instead of `75000`, one of two seconds
divides by zero, and timer 1 is started with the match value it had. -/
theorem delay_not_programmed :
    ¬ Programmed .tim0 reset 100000000 3 (delayMs reset 100000000 0 3) ∧
    delayMs reset 100000000 0 2000 = none ∧
    ¬ Programmed .tim1 reset 100000000 10 (delayMs reset 100000000 1 10) := by
  refine ⟨?_, by decide +kernel, ?_⟩
  · rintro ⟨s, hs, -, hmr0, -⟩
    obtain rfl := Option.some.inj hs
    exact absurd hmr0 (by decide +kernel)
  · rintro ⟨s, hs, -, hmr0, -⟩
    obtain rfl := Option.some.inj hs
    exact absurd hmr0 (by decide +kernel)

end AoaBoard.Board.Delay
