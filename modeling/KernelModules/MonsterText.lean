import KernelModules.Lines
import KernelModules.PocketMonster

/-!
# `/proc/kernel_monster`

Five lines, the first of which is the name of the monster. A name is a module parameter and may be
anything, line ends and further lines included.

* `monsterProcShow` — the text;
* `monsterProcShow_injective` — **the text says what the monster is like**, whatever its name is.
-/

namespace KernelModules

namespace PocketMonster

open Lines

/-! ## The text -/

/-- `"age: %d\n"`, `"hunger: %d\n"`, `"energy: %d\n"` and `"mood: %s\n"` -/
def stateFormat : List Slot :=
  [⟨ascii "age: ", 10⟩, ⟨ascii "hunger: ", 10⟩, ⟨ascii "energy: ", 10⟩, ⟨ascii "mood: ", 10⟩]

/-- What they are filled with -/
def stateValues (p : KernelMonster) : List (List UInt8) :=
  [decimal p.age.toInt, decimal p.hunger.toInt, decimal p.energy.toInt, ascii p.mood.text]

/-- `monster_proc_show`: what the five `seq_printf` put out. -/
def monsterProcShow (p : KernelMonster) : List UInt8 :=
  ascii "name: " ++ (p.name ++ 10 :: print stateFormat (stateValues p))

/-! ## The state -/

theorem ascii_text_injective {x y : Mood} (h : ascii x.text = ascii y.text) : x = y := by
  cases x <;> cases y <;> first | rfl | exact absurd h (by decide)

theorem newline_not_mem_decimal (z : ℤ) : (10 : UInt8) ∉ decimal z :=
  not_mem_decimal (.inl (by decide)) (by decide)

theorem newline_not_mem_text (x : Mood) : (10 : UInt8) ∉ ascii x.text := by
  cases x <;> decide

theorem fits_stateValues (p : KernelMonster) : Fits stateFormat (stateValues p) :=
  .cons (newline_not_mem_decimal _) (.cons (newline_not_mem_decimal _)
    (.cons (newline_not_mem_decimal _) (.cons (newline_not_mem_text _) .nil)))

/-- The lines after the name end with four line ends and contain no others. -/
theorem count_newline (p : KernelMonster) : (print stateFormat (stateValues p)).count 10 = 4 := by
  have hlabels : (ascii "age: ").count 10 = 0 ∧ (ascii "hunger: ").count 10 = 0 ∧
      (ascii "energy: ").count 10 = 0 ∧ (ascii "mood: ").count 10 = 0 := by decide
  have hvalue (z : ℤ) : (decimal z).count 10 = 0 :=
    List.count_eq_zero_of_not_mem (newline_not_mem_decimal z)
  have hmood : (ascii p.mood.text).count 10 = 0 :=
    List.count_eq_zero_of_not_mem (newline_not_mem_text p.mood)
  obtain ⟨hage, hhunger, henergy, hlabel⟩ := hlabels
  simp [stateFormat, stateValues, print, List.count_append, hage, hhunger, henergy, hlabel, hvalue,
    hmood]

/-- The four lines say what they are filled with. -/
theorem stateValues_injective {p q : KernelMonster}
    (h : print stateFormat (stateValues p) = print stateFormat (stateValues q)) :
    stateValues p = stateValues q := by
  have hp := scan_print (fits_stateValues p) []
  have hq := scan_print (fits_stateValues q) []
  rw [h, hq] at hp
  exact (Prod.mk.inj (Option.some.inj hp)).1.symm

theorem decimal_inj {x y : Int32} (h : decimal x.toInt = decimal y.toInt) : x = y := by
  have hxy := congrArg readDecimal h
  rw [readDecimal_decimal, readDecimal_decimal] at hxy
  exact Int32.toInt_inj.mp hxy

/-- **The text says what the monster is like**: no two monsters are shown alike, not even when the
name of one looks like the lines of another. -/
theorem monsterProcShow_injective : Function.Injective monsterProcShow := by
  intro p q h
  -- the name ends where four line ends are left
  obtain ⟨hname, hstate⟩ := eq_of_append_eq (List.append_cancel_left h)
    ((count_newline p).trans (count_newline q).symm)
  have hvalues := stateValues_injective hstate
  simp only [stateValues, List.cons.injEq, and_true] at hvalues
  obtain ⟨hage, hhunger, henergy, hmood⟩ := hvalues
  exact KernelMonster.ext hname (decimal_inj hhunger) (decimal_inj henergy)
    (decimal_inj hage) (ascii_text_injective hmood)

end PocketMonster

end KernelModules
