import KernelModules.KeyloggerFlush

/-!
# What was typed and what the keylogger reports

`kbdmon_keylogger.c` counts letters off from `KEY_A`, as if the keycodes were in alphabetical
order; they follow the rows of the keyboard, as `key_name` in `kbdmon.c` knows. Here the event
callback and the timer are whole, so that nothing is lost between them.

* `keyName` — `key_name`; `typedChar` — the letter on the key;
* `TextAct`, `listen` — key events and expiries, and the keylogger behind them;
* `reported_eq` — the characters stored are all reported, in order;
* `text_reported_iff` — **the text typed is reported** exactly when only `KEY_A` and the space bar
  have been pressed.
-/

namespace KernelModules

namespace Keylogger

/-! ## The other table -/

/-- The cases of `key_name`, with the keycodes of `linux/input-event-codes.h` -/
def keyNames : List (ℕ × String) :=
  [(30, "A"), (48, "B"), (46, "C"), (32, "D"), (18, "E"), (33, "F"), (34, "G"), (35, "H"),
   (23, "I"), (36, "J"), (37, "K"), (38, "L"), (50, "M"), (49, "N"), (24, "O"), (25, "P"),
   (16, "Q"), (19, "R"), (31, "S"), (20, "T"), (22, "U"), (47, "V"), (17, "W"), (45, "X"),
   (21, "Y"), (44, "Z"),
   (2, "1"), (3, "2"), (4, "3"), (5, "4"), (6, "5"), (7, "6"), (8, "7"), (9, "8"), (10, "9"),
   (11, "0"),
   (28, "ENTER"), (57, "SPACE"), (1, "ESC"), (14, "BACKSPACE"), (15, "TAB"),
   (42, "LSHIFT"), (54, "RSHIFT"), (29, "LCTRL"), (97, "RCTRL"), (56, "LALT"), (100, "RALT")]

/-- `key_name(code)` -/
def keyName (code : ℕ) : String := (keyNames.lookup code).getD "UNKNOWN"

/-- The keys with a letter on them, from A to Z -/
def letterKeys : List ℕ := (keyNames.take 26).map Prod.fst

/-- The key types a letter or a blank. -/
def IsTextKey (code : ℕ) : Prop := code ∈ letterKeys ∨ code = keySpace

instance (code : ℕ) : Decidable (IsTextKey code) :=
  inferInstanceAs (Decidable (code ∈ letterKeys ∨ code = keySpace))

/-- What a key types: a blank, or the letter that `key_name` gives, in lower case -/
def typedChar (code : ℕ) : UInt8 :=
  if code = keySpace then 32
  else UInt8.ofNat ((keyName code).toList.headD ' ').toLower.toNat

/-- **The two tables agree** on one letter only. -/
theorem keyToChar_eq_typedChar_iff {code : ℕ} (hcode : IsTextKey code) :
    keyToChar code = typedChar code ↔ code = keyA ∨ code = keySpace := by
  have hletters : ∀ code ∈ letterKeys,
      keyToChar code = typedChar code ↔ code = keyA ∨ code = keySpace := by decide +kernel
  rcases hcode with hletter | rfl
  · exact hletters code hletter
  · exact iff_of_true (by decide) (.inr rfl)

/-! ## Typing -/

/-- What happens to the keylogger. -/
inductive TextAct where
  /-- an `EV_KEY` event, handled by `kbdmon_event` -/
  | event (code : ℕ) (value : ℤ)
  /-- the timer expires and `exfiltrate` runs -/
  | expire
  deriving DecidableEq

/-- The log, and the strings exfiltrated so far. -/
structure Session where
  /-- `logbuf` and `logpos` -/
  log : Log
  /-- the strings exfiltrated -/
  printed : List (List UInt8)

/-- One event or expiry, as a whole -/
def Session.act (s : Session) : TextAct → Session
  | .event code value => { s with log := kbdmonEvent evKey code value s.log }
  | .expire => ⟨(exfiltrate s.log).1, s.printed ++ (exfiltrate s.log).2⟩

/-- The keylogger after a whole run -/
def listen (acts : List TextAct) : Session := acts.foldl Session.act ⟨Log.static, []⟩

/-- What is known of the text: the strings exfiltrated, and what is pending -/
def reported (acts : List TextAct) : List UInt8 :=
  (listen acts).printed.flatten ++ (listen acts).log.pending

/-- The key that an event presses -/
def TextAct.press : TextAct → Option ℕ
  | .event code value => if value = 1 then some code else none
  | .expire => none

/-- The keys pressed in a run, in order -/
def presses (acts : List TextAct) : List ℕ := acts.filterMap TextAct.press

/-- The text typed in a run -/
def typed (acts : List TextAct) : List UInt8 := (presses acts).map typedChar

/-- All events are of letter keys and of the space bar. -/
def OnlyText (acts : List TextAct) : Prop := ∀ code value, .event code value ∈ acts → IsTextKey code

/-- No more than 255 presses come between two expiries. -/
def PacedText (acts : List TextAct) : Prop :=
  ∀ pre mid post, acts = pre ++ mid ++ post → .expire ∉ mid → (presses mid).length ≤ 255

/-! ## Everything stored is reported -/

theorem listen_concat (acts : List TextAct) (a : TextAct) :
    listen (acts ++ [a]) = (listen acts).act a := by
  rw [listen, List.foldl_append]
  rfl

theorem presses_concat (acts : List TextAct) (a : TextAct) :
    presses (acts ++ [a]) = presses acts ++ a.press.toList := by
  rw [presses, List.filterMap_append]
  cases h : a.press <;> simp [presses, h]

theorem PacedText.init {acts : List TextAct} {a : TextAct} (h : PacedText (acts ++ [a])) :
    PacedText acts := by
  intro pre mid post hsplit
  refine h pre mid (post ++ [a]) ?_
  rw [hsplit, List.append_assoc]

/-- What has been logged by the end of a run -/
structure Logged (acts : List TextAct) (s : Session) : Prop where
  /-- the log holds the presses since some expiry -/
  since : ∃ pre mid, acts = pre ++ mid ∧ TextAct.expire ∉ mid ∧
    s.log.logpos = (presses mid).length
  /-- every press has been stored -/
  stored : s.printed.flatten ++ s.log.pending = (presses acts).map keyToChar

namespace Logged

variable {acts : List TextAct} {s : Session}

theorem logpos_le (h : Logged acts s) (hpaced : PacedText acts) : s.log.logpos ≤ 255 := by
  obtain ⟨pre, mid, hsplit, hmid, hpos⟩ := h.since
  rw [hpos]
  exact hpaced pre mid [] (by rw [hsplit, List.append_nil]) hmid

theorem chars (h : Logged acts s) : ∀ c ∈ s.log.pending, c ≠ 0 := by
  intro c hc
  have hmem : c ∈ (presses acts).map keyToChar := by
    rw [← h.stored]
    exact List.mem_append_right _ hc
  obtain ⟨code, -, rfl⟩ := List.mem_map.mp hmem
  exact keyToChar_ne_zero code

/-- **A press** finds room. -/
theorem press (h : Logged acts s) {code : ℕ} {value : ℤ} (hvalue : value = 1)
    (hpaced : PacedText (acts ++ [.event code value])) :
    Logged (acts ++ [.event code value]) (s.act (.event code value)) := by
  have hpress : (TextAct.event code value).press = some code := if_pos hvalue
  obtain ⟨pre, mid, hsplit, hmid, hpos⟩ := h.since
  have hmid' : TextAct.expire ∉ mid ++ [.event code value] := by simp [hmid]
  have hsplit' : acts ++ [.event code value] = pre ++ (mid ++ [.event code value]) := by
    rw [hsplit, List.append_assoc]
  have hlen : (presses (mid ++ [.event code value])).length = (presses mid).length + 1 := by
    rw [presses_concat, hpress, Option.toList_some, List.length_append, List.length_singleton]
  have hroom : s.log.logpos < logSize - 1 := by
    have hle := hpaced pre _ [] (by rw [hsplit', List.append_nil]) hmid'
    rw [hlen, ← hpos] at hle
    exact hle
  have hlog : (s.act (.event code value)).log = s.log.store (keyToChar code) :=
    kbdmonEvent_press ⟨rfl, hvalue⟩ hroom
  refine ⟨⟨pre, _, hsplit', hmid', ?_⟩, ?_⟩
  · rw [hlog, hlen, ← hpos]
    rfl
  · rw [hlog, Log.pending_store, ← List.append_assoc, presses_concat, hpress, List.map_append]
    exact congrArg (· ++ [keyToChar code]) h.stored

/-- A repeat or a release is not looked at. -/
theorem other (h : Logged acts s) {code : ℕ} {value : ℤ} (hvalue : value ≠ 1) :
    Logged (acts ++ [.event code value]) (s.act (.event code value)) := by
  have hpress : (TextAct.event code value).press = none := if_neg hvalue
  have hlog : s.act (.event code value) = s := by
    rw [Session.act, kbdmonEvent_other fun hp => hvalue hp.2]
  obtain ⟨pre, mid, hsplit, hmid, hpos⟩ := h.since
  rw [hlog]
  refine ⟨⟨pre, mid ++ [.event code value], by rw [hsplit, List.append_assoc], ?_, ?_⟩, ?_⟩
  · simp [hmid]
  · rw [presses_concat, hpress, Option.toList_none, List.append_nil, hpos]
  · rw [presses_concat, hpress, Option.toList_none, List.append_nil, h.stored]

/-- **An expiry** moves what is pending to what is exfiltrated. -/
theorem expire (h : Logged acts s) (hpaced : PacedText acts) :
    Logged (acts ++ [.expire]) (s.act .expire) := by
  have hpos := h.logpos_le hpaced
  have hpresses : presses (acts ++ [.expire]) = presses acts := by
    rw [presses_concat]
    exact List.append_nil _
  rw [Session.act, exfiltrate]
  split
  case isTrue hgt =>
    refine ⟨⟨acts ++ [.expire], [], (List.append_nil _).symm, List.not_mem_nil, rfl⟩, ?_⟩
    have htext := Log.text_terminate (Nat.lt_succ_of_le hpos) h.chars
    rw [hpresses, ← h.stored, htext, List.flatten_append, List.flatten_singleton]
    exact List.append_nil _
  case isFalse hzero =>
    have hzero : s.log.logpos = 0 := Nat.eq_zero_of_not_pos hzero
    refine ⟨⟨acts ++ [.expire], [], (List.append_nil _).symm, List.not_mem_nil, hzero⟩, ?_⟩
    rw [hpresses, ← h.stored, List.append_nil]

end Logged

theorem logged_listen {acts : List TextAct} (hpaced : PacedText acts) :
    Logged acts (listen acts) := by
  induction acts using List.reverseRecOn with
  | nil => exact ⟨⟨[], [], rfl, List.not_mem_nil, rfl⟩, rfl⟩
  | append_singleton acts a ih =>
    have h := ih hpaced.init
    rw [listen_concat]
    cases a with
    | expire => exact h.expire hpaced.init
    | event code value =>
      by_cases hvalue : value = 1
      · exact h.press hvalue hpaced
      · exact h.other hvalue

/-- **A paced run** reports what it has made of every press, in order. -/
theorem reported_eq {acts : List TextAct} (hpaced : PacedText acts) :
    reported acts = (presses acts).map keyToChar :=
  (logged_listen hpaced).stored

theorem mem_presses {acts : List TextAct} {code : ℕ} :
    code ∈ presses acts ↔ .event code 1 ∈ acts := by
  rw [presses, List.mem_filterMap]
  constructor
  · rintro ⟨_ | _, hmem, hpress⟩
    · obtain ⟨rfl, hcode⟩ := Option.ite_none_right_eq_some.mp hpress
      obtain rfl := Option.some.inj hcode
      exact hmem
    · cases hpress
  · intro hmem
    exact ⟨.event code 1, hmem, rfl⟩

/-- **The keylogger reports the text that was typed** exactly when every key pressed is `KEY_A` or
the space bar: it counts letters off from `KEY_A`, and the keys are not in that order. -/
theorem text_reported_iff {acts : List TextAct} (htext : OnlyText acts) (hpaced : PacedText acts) :
    reported acts = typed acts ↔
      ∀ code, .event code 1 ∈ acts → code = keyA ∨ code = keySpace := by
  rw [reported_eq hpaced, typed, List.map_inj_left]
  refine forall_congr' fun code => ?_
  rw [mem_presses]
  refine imp_congr_right fun hmem => ?_
  exact keyToChar_eq_typedChar_iff (htext code 1 hmem)

/-- A press, a repeat and a release of `KEY_A`, an expiry, and a press of the space bar -/
def typesA : List TextAct :=
  [.event keyA 1, .event keyA 2, .event keyA 0, .expire, .event keySpace 1]

/-- A short run is paced. -/
theorem pacedText_of_length_le {acts : List TextAct} (h : acts.length ≤ 255) :
    PacedText acts := by
  intro pre mid post hsplit _
  have hmid : (presses mid).length ≤ mid.length := List.length_filterMap_le ..
  rw [hsplit, List.length_append, List.length_append] at h
  omega

/-- It is reported as typed. -/
theorem reported_typesA : reported typesA = typed typesA ∧ typed typesA = [97, 32] := by
  have htext : OnlyText typesA := by
    intro code value hmem
    have hall : ∀ a ∈ typesA, ∀ code value, a = .event code value → IsTextKey code := by
      simp [typesA]
      decide
    exact hall _ hmem code value rfl
  refine ⟨(text_reported_iff htext (pacedText_of_length_le (by decide))).mpr ?_, by decide +kernel⟩
  simp [typesA]

/-- **Pressing S is reported as a `b`.** -/
theorem reported_s :
    OnlyText [.event 31 1] ∧ PacedText [.event 31 1] ∧
      typed [.event 31 1] = [115] ∧ reported [.event 31 1] = [98] := by
  refine ⟨?_, pacedText_of_length_le (by decide), by decide +kernel, by decide +kernel⟩
  intro code value hmem
  obtain ⟨rfl, -⟩ := TextAct.event.inj (List.mem_singleton.mp hmem)
  decide

end Keylogger

end KernelModules
