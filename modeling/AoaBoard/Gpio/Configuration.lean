import AoaBoard.Gpio.Pins
import Mathlib.Data.List.Basic

/-!
# The fields of the pins

Each pin has four fields, and the places of two fields are apart. A call is a
list of assignments to the fields of its pin, so what a sequence of calls leaves
in a field, what it leaves alone and which calls commute are facts about
assignments.
-/

namespace AoaBoard.Gpio
open Library Library.Fields

inductive Field
  | func
  | direction
  | resistor
  | openDrain
  deriving DecidableEq

def Field.width : Field → ℕ
  | .func => 2
  | .direction => 1
  | .resistor => 2
  | .openDrain => 1

def word (p : Pin) : Field → Word
  | .func => .pincon (pinSel0 + (2 * p.port + p.num / 16))
  | .direction => .gpio (gpioTypeDefWords * p.port)
  | .resistor => .pincon (pinMode0 + (2 * p.port + p.num / 16))
  | .openDrain => .pincon (pinModeOd0 + p.port)

def offset (p : Pin) : Field → ℕ
  | .func => 2 * (p.num % 16)
  | .direction => p.num
  | .resistor => 2 * (p.num % 16)
  | .openDrain => p.num

theorem offset_fits (p : Pin) (f : Field) : offset p f + f.width ≤ 32 := by
  have hnum := p.num.isLt
  cases f <;> simp only [offset, Field.width] <;> omega

def place (p : Pin) (f : Field) : Place Word where
  word := word p f
  offset := offset p f
  width := f.width
  nonempty := by cases f <;> decide
  fits := offset_fits p f

/-- The fields that the hardware does not have. -/
def Exempt (p : Pin) : Field → Prop
  | .resistor => p.port = 0 ∧ 27 ≤ p.num.val ∧ p.num.val ≤ 30
  | .openDrain => p.port = 0 ∧ 27 ≤ p.num.val ∧ p.num.val ≤ 28
  | .func => False
  | .direction => False

instance decidableExempt (p : Pin) : ∀ f, Decidable (Exempt p f)
  | .resistor | .openDrain => inferInstanceAs (Decidable (_ ∧ _ ∧ _))
  | .func | .direction => inferInstanceAs (Decidable False)

def requested : Call → Field → Option ℕ
  | .asGpio _ _ _ _, .func => some PinFunction.dafaultFunc.code
  | .asGpio _ dir _ _, .direction => some dir.code
  | .asGpio _ _ resMode _, .resistor => some resMode.code
  | .asGpio _ _ _ odMode, .openDrain => some odMode.code
  | .notAsGpio _ func _ _, .func => some func.code
  | .notAsGpio _ _ _ _, .direction => none
  | .notAsGpio _ _ resMode _, .resistor => some resMode.code
  | .notAsGpio _ _ _ odMode, .openDrain => some odMode.code

/-- The request of the last call that names the pin and sets the field. -/
def lastRequested (p : Pin) (f : Field) (cs : List Call) : Option ℕ :=
  (cs.filter fun c => c.pin = p).reverse.findSome? fun c => requested c f

theorem place_apart {p q : Pin} {f g : Field} (h : ¬ (p = q ∧ f = g)) :
    Apart (place p f) (place q g) := by
  rintro i b ⟨hword, hlow, hhigh⟩ ⟨hword', hlow', hhigh'⟩
  have hw : word p f = word q g := hword.symm.trans hword'
  have hport := p.port.isLt
  have hport' := q.port.isLt
  have hpin (hp : p.port.val = q.port.val) (hn : p.num.val = q.num.val) : p = q := by
    cases p
    cases q
    simp only [Pin.mk.injEq]
    exact ⟨Fin.ext hp, Fin.ext hn⟩
  have hnum := p.num.isLt
  have hnum' := q.num.isLt
  simp only [place] at hlow hhigh hlow' hhigh'
  cases f <;> cases g <;>
    simp only [word, offset, Field.width, pinSel0, pinMode0, pinModeOd0, gpioTypeDefWords,
      Word.pincon.injEq, Word.gpio.injEq, reduceCtorEq] at hw hlow hhigh hlow' hhigh'
  case func.func => exact h ⟨hpin (by omega) (by omega), rfl⟩
  case resistor.resistor => exact h ⟨hpin (by omega) (by omega), rfl⟩
  case direction.direction => exact h ⟨hpin (by omega) (by omega), rfl⟩
  case openDrain.openDrain => exact h ⟨hpin (by omega) (by omega), rfl⟩
  all_goals omega

theorem place_inj {p q : Pin} {f g : Field} : place p f = place q g ↔ p = q ∧ f = g := by
  constructor
  · intro heq
    by_contra hne
    have hcovers : (place p f).Covers (place p f).word (place p f).offset :=
      ⟨rfl, le_refl _, Nat.lt_add_of_pos_right (place p f).nonempty⟩
    exact place_apart hne _ _ hcovers (heq ▸ hcovers)
  · rintro ⟨rfl, rfl⟩
    rfl

theorem setTwoBits_eq (base : ℕ) (r : Registers) {portNum pinNum code : ℕ} (hpin : pinNum < 32)
    (hcode : code < 2 ^ 2) (hfits : 2 * (pinNum % 16) + 2 ≤ 32) :
    setTwoBits base r portNum pinNum code =
      assign r ⟨⟨.pincon (base + (2 * portNum + pinNum / 16)), 2 * (pinNum % 16), 2, Nat.two_pos,
        hfits⟩, code, hcode⟩ := by
  have hnum : (if 16 ≤ pinNum then pinNum - 16 else pinNum) * 2 = 2 * (pinNum % 16) := by
    split_ifs <;> omega
  have hidx : (if 16 ≤ pinNum then 2 * portNum + 1 else 2 * portNum) =
      2 * portNum + pinNum / 16 := by split_ifs <;> omega
  simp only [setTwoBits, andAt, orAt, hnum, hidx, Function.update_self, Function.update_idem]
  rfl

theorem setBit_eq (r : Registers) (w : Word) {pinNum : ℕ} (hfits : pinNum + 1 ≤ 32) :
    orAt r w (1 <<< UInt32.ofNat pinNum) =
        assign r ⟨⟨w, pinNum, 1, Nat.one_pos, hfits⟩, 1, Nat.one_lt_two⟩ ∧
      andAt r w (~~~(1 <<< UInt32.ofNat pinNum)) =
        assign r ⟨⟨w, pinNum, 1, Nat.one_pos, hfits⟩, 0, Nat.two_pos⟩ := by
  constructor
  · rw [orAt, Bits.or_eq_writeField]
    rfl
  · have hzero : (0 : UInt32) <<< UInt32.ofNat pinNum = 0 := UInt32.zero_shiftLeft
    rw [andAt, Bits.and_not_eq_writeField, ← hzero]
    rfl

def setting (p : Pin) (f : Field) (value : ℕ) (h : value < 2 ^ f.width) : List (Assignment Word) :=
  if Exempt p f then [] else [⟨place p f, value, h⟩]

theorem PinFunction.code_lt (func : PinFunction) : func.code < 2 ^ Field.func.width := by
  cases func <;> decide

theorem PinResMode.code_lt (resMode : PinResMode) :
    resMode.code < 2 ^ Field.resistor.width := by cases resMode <;> decide

theorem PinOdMode.code_lt (odMode : PinOdMode) :
    odMode.code < 2 ^ Field.openDrain.width := by cases odMode <;> decide

theorem PinDirection.code_lt (dir : PinDirection) :
    dir.code < 2 ^ Field.direction.width := by cases dir <;> decide

theorem setPinFunc_eq (r : Registers) (p : Pin) (func : PinFunction) :
    setPinFunc r p.port p.num func = assignAll r (setting p .func func.code func.code_lt) :=
  setTwoBits_eq pinSel0 r p.num.isLt func.code_lt (offset_fits p .func)

theorem setResistorMode_eq (r : Registers) (p : Pin) (resMode : PinResMode) :
    setResistorMode r p.port p.num resMode =
      assignAll r (setting p .resistor resMode.code resMode.code_lt) := by
  have hport : p.port.val = 0 ↔ p.port = 0 := Fin.val_eq_zero_iff
  by_cases hexempt : Exempt p .resistor
  · rw [setting, if_pos hexempt]
    exact if_pos ⟨hport.mpr hexempt.1, hexempt.2⟩
  · have hset : setResistorMode r p.port p.num resMode =
        setTwoBits pinMode0 r p.port p.num resMode.code :=
      if_neg fun h => hexempt ⟨hport.mp h.1, h.2⟩
    rw [setting, if_neg hexempt, hset]
    exact setTwoBits_eq pinMode0 r p.num.isLt resMode.code_lt (offset_fits p .resistor)

theorem setPinDir_eq (r : Registers) (p : Pin) (dir : PinDirection) :
    setPinDir r p.port p.num dir =
      assignAll r (setting p .direction dir.code dir.code_lt) := by
  obtain ⟨hset, hclear⟩ := setBit_eq r (word p .direction) (offset_fits p .direction)
  cases dir with
  | «in» => exact hclear
  | out => exact hset

theorem setOpenDrainMode_eq (r : Registers) (p : Pin) (odMode : PinOdMode) :
    setOpenDrainMode r p.port p.num odMode =
      assignAll r (setting p .openDrain odMode.code odMode.code_lt) := by
  have hport : p.port.val = 0 ↔ p.port = 0 := Fin.val_eq_zero_iff
  obtain ⟨hset, hclear⟩ := setBit_eq r (word p .openDrain) (offset_fits p .openDrain)
  by_cases hexempt : Exempt p .openDrain
  · rw [setting, if_pos hexempt]
    exact if_pos ⟨hport.mpr hexempt.1, hexempt.2⟩
  · rw [setting, if_neg hexempt, setOpenDrainMode,
      if_neg fun h => hexempt ⟨hport.mp h.1, h.2⟩]
    cases odMode with
    | notOpenDrain => exact hclear
    | openDrain => exact hset

def assignments : Call → List (Assignment Word)
  | .asGpio p dir resMode odMode =>
    setting p .func PinFunction.dafaultFunc.code (PinFunction.code_lt _) ++
      setting p .direction dir.code dir.code_lt ++
      setting p .resistor resMode.code resMode.code_lt ++
      setting p .openDrain odMode.code odMode.code_lt
  | .notAsGpio p func resMode odMode =>
    setting p .func func.code func.code_lt ++
      setting p .resistor resMode.code resMode.code_lt ++
      setting p .openDrain odMode.code odMode.code_lt

theorem call_eq (r : Registers) (c : Call) : call r c = assignAll r (assignments c) := by
  cases c with
  | asGpio p dir resMode odMode =>
    simp only [call, initPinAsGPIO, setPinFunc_eq, setPinDir_eq, setResistorMode_eq,
      setOpenDrainMode_eq, assignments, assignAll, List.foldl_append]
  | notAsGpio p func resMode odMode =>
    simp only [call, initPinNotAsGPIO, setPinFunc_eq, setResistorMode_eq, setOpenDrainMode_eq,
      assignments, assignAll, List.foldl_append]

theorem calls_eq (r : Registers) (cs : List Call) :
    calls r cs = assignAll r (cs.flatMap assignments) := by
  induction cs generalizing r with
  | nil => rfl
  | cons c cs ih =>
    have hrest := ih (call r c)
    rw [calls] at hrest
    rw [calls, List.foldl_cons, hrest, call_eq, List.flatMap_cons, assignAll, assignAll, assignAll,
      List.foldl_append]

theorem setting_place {p : Pin} {f : Field} {value : ℕ} {h : value < 2 ^ f.width}
    {a : Assignment Word} (ha : a ∈ setting p f value h) : a.place = place p f := by
  rw [setting] at ha
  split_ifs at ha with hexempt
  · exact absurd ha List.not_mem_nil
  · rw [List.mem_singleton.mp ha]

theorem assignments_place {c : Call} {a : Assignment Word} (ha : a ∈ assignments c) :
    ∃ f, a.place = place c.pin f := by
  cases c with
  | asGpio p dir resMode odMode =>
    simp only [assignments, List.mem_append] at ha
    obtain ((ha | ha) | ha) | ha := ha
    all_goals exact ⟨_, setting_place ha⟩
  | notAsGpio p func resMode odMode =>
    simp only [assignments, List.mem_append] at ha
    obtain (ha | ha) | ha := ha
    all_goals exact ⟨_, setting_place ha⟩

theorem lastAt_setting (p q : Pin) (f g : Field) (value : ℕ) (h : value < 2 ^ g.width) :
    lastAt (place p f) (setting q g value h) =
      if q = p ∧ g = f ∧ ¬ Exempt p f then some value else none := by
  by_cases hsame : q = p ∧ g = f
  · obtain ⟨rfl, rfl⟩ := hsame
    rw [setting]
    split_ifs with hexempt hboth hboth
    · exact absurd hexempt hboth.2.2
    · rfl
    · simp [lastAt]
    · exact absurd ⟨rfl, rfl, hexempt⟩ hboth
  · have hne : ¬ place q g = place p f := mt place_inj.mp hsame
    rw [if_neg fun hall => hsame ⟨hall.1, hall.2.1⟩, setting]
    split_ifs
    · rfl
    · simp [lastAt, hne]

theorem lastAt_assignments (p : Pin) (f : Field) (c : Call) :
    lastAt (place p f) (assignments c) =
      if c.pin = p ∧ ¬ Exempt p f then requested c f else none := by
  cases c with
  | asGpio q dir resMode odMode =>
    simp only [assignments, lastAt_append, lastAt_setting, Call.pin]
    by_cases hpin : q = p <;> by_cases hexempt : Exempt p f <;> cases f <;>
      simp [hpin, hexempt, requested]
  | notAsGpio q func resMode odMode =>
    simp only [assignments, lastAt_append, lastAt_setting, Call.pin]
    by_cases hpin : q = p <;> by_cases hexempt : Exempt p f <;> cases f <;>
      simp [hpin, hexempt, requested]

theorem lastAt_calls (p : Pin) (f : Field) (cs : List Call) :
    lastAt (place p f) (cs.flatMap assignments) =
      if Exempt p f then none else lastRequested p f cs := by
  induction cs with
  | nil => rw [List.flatMap_nil, lastRequested, List.filter_nil]; exact (ite_self none).symm
  | cons c cs ih =>
    have hsplit : lastRequested p f (c :: cs) =
        (lastRequested p f cs).or (if c.pin = p then requested c f else none) := by
      rw [lastRequested, lastRequested, List.filter_cons]
      by_cases hpin : c.pin = p
      · simp [hpin]
      · simp [hpin]
    rw [List.flatMap_cons, lastAt_append, ih, lastAt_assignments, hsplit]
    by_cases hexempt : Exempt p f
    · simp [hexempt]
    · simp [hexempt]

theorem read_calls (r : Registers) (p : Pin) (f : Field) (cs : List Call) :
    read (place p f) (calls r cs) =
      if Exempt p f then read (place p f) r
      else (lastRequested p f cs).getD (read (place p f) r) := by
  rw [calls_eq, read_assignAll, lastAt_calls]
  · split_ifs <;> rfl
  · intro a ha
    obtain ⟨c, -, hc⟩ := List.mem_flatMap.mp ha
    obtain ⟨g, hg⟩ := assignments_place hc
    by_cases hsame : p = c.pin ∧ f = g
    · exact Or.inl (by rw [hg, hsame.1, hsame.2])
    · exact Or.inr (hg ▸ place_apart hsame)

theorem bit_calls {cs : List Call} {w : Word} {b : ℕ}
    (h : ∀ p f, (place p f).Covers w b → ∀ c ∈ cs, c.pin ≠ p) (r : Registers) :
    bit (calls r cs) w b = bit r w b := by
  rw [calls_eq]
  refine bit_assignAll_other fun a ha hcovers => ?_
  obtain ⟨c, hc, hac⟩ := List.mem_flatMap.mp ha
  obtain ⟨f, hf⟩ := assignments_place hac
  exact h c.pin f (hf ▸ hcovers) c hc rfl

theorem call_comm {c d : Call} (h : c.pin ≠ d.pin) (r : Registers) :
    call (call r c) d = call (call r d) c := by
  rw [call_eq, call_eq, call_eq, call_eq]
  refine assignAll_comm fun a ha e he => ?_
  obtain ⟨f, hf⟩ := assignments_place ha
  obtain ⟨g, hg⟩ := assignments_place he
  rw [hf, hg]
  exact place_apart fun hsame => h hsame.1

/-- Whatever the registers hold, after any calls each field holds what the last call that sets
it asks for, an exempt field and every bit of no named pin hold what they held, and calls on
different pins commute. -/
theorem pins_configured (r : Registers) :
    (∀ cs p f, read (place p f) (calls r cs) =
      if Exempt p f then read (place p f) r
      else (lastRequested p f cs).getD (read (place p f) r)) ∧
    (∀ cs w b, (∀ p f, (place p f).Covers w b → ∀ c ∈ cs, c.pin ≠ p) →
      bit (calls r cs) w b = bit r w b) ∧
    ∀ c d, c.pin ≠ d.pin → call (call r c) d = call (call r d) c :=
  ⟨fun cs p f => read_calls r p f cs, fun _ _ _ h => bit_calls h r, fun _ _ h => call_comm h r⟩

example : let p : Pin := ⟨0, 16⟩
    let r := calls (fun _ => 0xFFFFFFFF)
      [.notAsGpio p .firstAltFunc .pullDown .openDrain, .asGpio p .out .none .notOpenDrain]
    r (.pincon 1) = 0xFFFFFFFC ∧ r (.pincon 17) = 0xFFFFFFFE ∧ r (.pincon 26) = 0xFFFEFFFF := by
  decide +kernel

end AoaBoard.Gpio
