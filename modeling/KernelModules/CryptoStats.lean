import KernelModules.CryptoChallenge
import KernelModules.Lines
import KernelModules.ReadLoop
import KernelModules.StackData

/-!
# `/proc/crypto_challenge/stats`

`stats_read` prints the counters anew in each call, and hands out what comes after the offset. The
threads go on counting in between, so what a reader gets is put together from several texts.

* `Stats`, `Stats.text` — the line that is printed; `readStats_text` — **it is read again as it was
  printed**, and `length_text_le` — it fits into `out`;
* `statsRead` — one call, with what was on the stack before;
* `received_eq` — a reader gets each byte from one of the texts, where it stands in it, and nothing
  of the stack;
* `read_to_end_iff` — **a reader with a large buffer gets one line** exactly when the second text is
  not longer than the first.
-/

namespace KernelModules

namespace CryptoChallenge

open Lines

/-! ## The text -/

/-- The values that are printed. -/
structure Stats where
  /-- `ops` -/
  ops : UInt64
  /-- `sample_count` -/
  samples : Int32
  /-- `final_score` -/
  score : UInt64
  /-- `invalid` -/
  invalid : Bool

/-- `"ops=%lld samples=%d score=%lld invalid=%d\n"` -/
def statsFormat : List Slot :=
  [⟨ascii "ops=", 32⟩, ⟨ascii "samples=", 32⟩, ⟨ascii "score=", 32⟩, ⟨ascii "invalid=", 10⟩]

/-- The numbers in it; `%lld` takes the 64 bits of a `u64` as a signed number. -/
def Stats.values (s : Stats) : List (List UInt8) :=
  [decimal s.ops.toInt64.toInt, decimal s.samples.toInt, decimal s.score.toInt64.toInt,
    decimal (if s.invalid then 1 else 0)]

/-- The line that is printed -/
def Stats.text (s : Stats) : List UInt8 := print statsFormat s.values

/-- The values of a line -/
def readStats (text : List UInt8) : Option Stats :=
  match scan statsFormat text with
  | some ([ops, samples, score, invalid], []) => some
      ⟨(Int64.ofInt (readDecimal ops)).toUInt64, .ofInt (readDecimal samples),
        (Int64.ofInt (readDecimal score)).toUInt64, readDecimal invalid != 0⟩
  | _ => none

/-! ## One call -/

/-- `simple_read_from_buffer`: the offset after the call, and what the caller gets. -/
def simpleReadFromBuffer (dest : UserSink) (count ppos : ℕ) (src : List UInt8) (available : ℕ) :
    ℕ × Ret :=
  if available ≤ ppos ∨ count = 0 then (ppos, ⟨0, []⟩)
  else
    let count := min count (available - ppos)
    let ret := dest.left count
    if ret = count then (ppos, .error efault)
    else (ppos + (count - ret), ⟨(count - ret : ℕ), (src.drop ppos).take (count - ret)⟩)

/-- What a call of `stats_read` is given and finds. -/
structure StatsCall where
  /-- `ctx`, as it is when each argument of the `snprintf` is looked at -/
  ctx : Fin 4 → Ctx
  /-- what is on the stack where `out` is going to be -/
  out : Vector UInt8 256
  /-- `buf` -/
  buf : UserSink
  /-- `len` -/
  len : ℕ

/-- The values it prints; the threads may come in between two of them. -/
def StatsCall.stats (c : StatsCall) : Stats :=
  ⟨(c.ctx 0).ops, .ofNat (c.ctx 1).sampleCount, (c.ctx 2).finalScore, (c.ctx 3).invalid⟩

/-- `stats_read`; `l` is how long the text is, whether or not it has found room. -/
def statsRead (ppos : ℕ) (c : StatsCall) : ℕ × Ret :=
  let out := StackData.snprintf c.out c.stats.text
  let l := c.stats.text.length
  simpleReadFromBuffer c.buf c.len ppos out.toList l

/-! ## The text is read again -/

/-- No number contains the byte that ends it. -/
theorem fits_values (s : Stats) : Fits statsFormat s.values := by
  have hspace (z : ℤ) : (32 : UInt8) ∉ decimal z := not_mem_decimal (.inl (by decide)) (by decide)
  have hnewline (z : ℤ) : (10 : UInt8) ∉ decimal z :=
    not_mem_decimal (.inl (by decide)) (by decide)
  exact .cons (hspace _) (.cons (hspace _) (.cons (hspace _) (.cons (hnewline _) .nil)))

theorem scan_text (s : Stats) (rest : List UInt8) :
    scan statsFormat (s.text ++ rest) = some (s.values, rest) :=
  scan_print (fits_values s) rest

/-- **The line is read again as it was printed.** -/
theorem readStats_text (s : Stats) : readStats s.text = some s := by
  have hscan := scan_text s []
  rw [List.append_nil] at hscan
  rw [readStats, hscan]
  simp only [Stats.values, readDecimal_decimal, Int64.ofInt_toInt, Int32.ofInt_toInt]
  obtain ⟨ops, samples, score, invalid⟩ := s
  cases invalid <;> simp

/-- Nothing else is. -/
theorem readStats_append {s : Stats} {rest : List UInt8} (hrest : rest ≠ []) :
    readStats (s.text ++ rest) = none := by
  obtain ⟨b, rest, rfl⟩ := List.exists_cons_of_ne_nil hrest
  rw [readStats, scan_text]
  rfl

theorem length_decimal_int64 (x : UInt64) : (decimal x.toInt64.toInt).length ≤ 20 := by
  have hle := Int64.toInt_lt x.toInt64
  have hge := Int64.le_toInt x.toInt64
  exact length_decimal_le (by norm_num) (abs_lt.mpr ⟨by omega, by omega⟩)

theorem length_decimal_int32 (x : Int32) : (decimal x.toInt).length ≤ 11 := by
  have hle := Int32.toInt_lt x
  have hge := Int32.le_toInt x
  exact length_decimal_le (by norm_num) (abs_lt.mpr ⟨by omega, by omega⟩)

theorem length_text (s : Stats) : s.text.length = 30 + (decimal s.ops.toInt64.toInt).length +
    (decimal s.samples.toInt).length + (decimal s.score.toInt64.toInt).length +
    (decimal (if s.invalid then 1 else 0)).length := by
  have hops : (ascii "ops=").length = 4 := by decide
  have hsamples : (ascii "samples=").length = 8 := by decide
  have hscore : (ascii "score=").length = 6 := by decide
  have hinvalid : (ascii "invalid=").length = 8 := by decide
  simp only [Stats.text, statsFormat, Stats.values, print, List.length_append, List.length_cons,
    List.length_nil, hops, hsamples, hscore, hinvalid]
  omega

/-- The line fits into `out`, with room to spare. -/
theorem length_text_le (s : Stats) : s.text.length ≤ 82 := by
  have hops := length_decimal_int64 s.ops
  have hsamples := length_decimal_int32 s.samples
  have hscore := length_decimal_int64 s.score
  have hinvalid : (decimal (if s.invalid then 1 else 0)).length = 1 := by
    cases s.invalid <;> decide
  rw [length_text]
  omega

theorem text_ne_nil (s : Stats) : s.text ≠ [] := by
  refine List.ne_nil_of_length_pos ?_
  rw [length_text]
  omega

/-! ## What a call hands out -/

/-- What is handed out comes from the text, not from the stack. -/
theorem take_drop_snprintf (out : Vector UInt8 256) (s : Stats) {ppos k : ℕ}
    (hk : ppos + k ≤ s.text.length) :
    ((StackData.snprintf out s.text).toList.drop ppos).take k = (s.text.drop ppos).take k := by
  have hlen := length_text_le s
  apply List.ext_getElem
  · simp
    omega
  · intro i hi₁ hi₂
    simp only [List.length_take, List.length_drop, Vector.length_toList] at hi₁
    have hi : ppos + i < s.text.length := by omega
    have hmin : min s.text.length (256 - 1) = s.text.length := by omega
    simp [StackData.snprintf, hmin, hi]

/-- What a call does. -/
inductive Hands (text : List UInt8) (ppos ppos' : ℕ) (r : Ret) : Prop where
  /-- nothing -/
  | nothing : ppos' = ppos → r.out = [] → r.code ≤ 0 → Hands text ppos ppos' r
  /-- a piece of the text -/
  | piece {k : ℕ} : 0 < k → ppos + k ≤ text.length → ppos' = ppos + k → r.code = k →
      r.out = (text.drop ppos).take k → Hands text ppos ppos' r

/-- **One call** hands out a piece of the text, if it hands out anything. -/
theorem hands_statsRead (ppos : ℕ) (c : StatsCall) :
    Hands c.stats.text ppos (statsRead ppos c).1 (statsRead ppos c).2 := by
  rw [statsRead, simpleReadFromBuffer]
  by_cases hend : c.stats.text.length ≤ ppos ∨ c.len = 0
  · rw [if_pos hend]
    exact .nothing rfl rfl le_rfl
  · rw [if_neg hend]
    obtain ⟨hpos, hlen⟩ := not_or.mp hend
    have hleft := c.buf.left_le (min c.len (c.stats.text.length - ppos))
    by_cases hall : c.buf.left (min c.len (c.stats.text.length - ppos)) =
        min c.len (c.stats.text.length - ppos)
    · simp only [if_pos hall]
      exact .nothing rfl rfl (by decide)
    · simp only [if_neg hall]
      refine .piece (by omega) ?_ rfl rfl (take_drop_snprintf _ _ ?_) <;> omega

/-- A call whose copy succeeds hands out all that is left, if there is room for it. -/
theorem statsRead_of_room {ppos : ℕ} {c : StatsCall} (hlen : 256 ≤ c.len)
    (hcopy : ∀ n, c.buf.left n = 0) : statsRead ppos c =
      if c.stats.text.length ≤ ppos then (ppos, ⟨0, []⟩)
      else (c.stats.text.length, ⟨(c.stats.text.length - ppos : ℕ), c.stats.text.drop ppos⟩) := by
  have htext := length_text_le c.stats
  rw [statsRead, simpleReadFromBuffer]
  by_cases hpos : c.stats.text.length ≤ ppos
  · rw [if_pos (.inl hpos), if_pos hpos]
  · have hmin : min c.len (c.stats.text.length - ppos) = c.stats.text.length - ppos := by omega
    have hne : ¬ 0 = c.stats.text.length - ppos := by omega
    have hsum : ppos + (c.stats.text.length - ppos) = c.stats.text.length := by omega
    rw [if_neg (by omega), if_neg hpos]
    simp only [hmin, hcopy, if_neg hne, Nat.sub_zero, hsum]
    rw [take_drop_snprintf _ _ hsum.le, List.take_of_length_le (by rw [List.length_drop])]

/-! ## A reader -/

/-- A call of a reader whose offset is `ppos`. -/
def statsCall (ppos : ℕ) (c : StatsCall) : Option (ℕ × Ret) := some (statsRead ppos c)

variable {calls : ℕ → StatsCall}

theorem hands_session (S : Session statsCall 0 calls) (n : ℕ) :
    Hands (calls n).stats.text (S.state n) (S.state (n + 1)) (S.ret n) := by
  have hstep : statsRead (S.state n) (calls n) = (S.state (n + 1), S.ret n) :=
    Option.some.inj (S.step n)
  have hhands := hands_statsRead (S.state n) (calls n)
  rw [hstep] at hhands
  exact hhands

/-- **Where the bytes come from**: whatever the threads do in between, and whatever the reader asks
for, each byte it gets stands at the same place in one of the texts that have been printed for it.
So nothing of the stack gets out. -/
theorem received_eq (S : Session statsCall 0 calls) (n : ℕ) :
    S.state n = (S.received n).length ∧
      ∀ (i : ℕ) (b : UInt8), (S.received n)[i]? = some b →
        ∃ k < n, (calls k).stats.text[i]? = some b := by
  induction n with
  | zero =>
    refine ⟨S.start, fun i b h => ?_⟩
    cases h
  | succ n ih =>
    obtain ⟨hstate, hbytes⟩ := ih
    have hold : ∀ (i : ℕ) (b : UInt8), (S.received n)[i]? = some b →
        ∃ k < n + 1, (calls k).stats.text[i]? = some b := fun i b h => by
      obtain ⟨k, hk, hb⟩ := hbytes i b h
      exact ⟨k, Nat.lt_succ_of_lt hk, hb⟩
    cases hands_session S n with
    | nothing hstate' hout _ =>
      rw [Session.received, hout, List.append_nil, hstate']
      exact ⟨hstate, hold⟩
    | @piece k _ hle hstate' _ hout =>
      rw [hstate] at hle hstate' hout
      rw [Session.received, hout, hstate']
      refine ⟨?_, fun i b h => ?_⟩
      · rw [List.length_append, List.length_take, List.length_drop]
        omega
      · rw [List.getElem?_append] at h
        split at h
        · exact hold i b h
        · next hi =>
          have hadd : (S.received n).length + (i - (S.received n).length) = i := by omega
          rw [List.getElem?_take, List.getElem?_drop, hadd] at h
          obtain ⟨-, h⟩ := Option.ite_none_right_eq_some.mp h
          exact ⟨n, Nat.lt_succ_self n, h⟩

/-! ## A reader with a large buffer -/

/-- All calls are large enough and can be served. -/
def Roomy (calls : ℕ → StatsCall) : Prop :=
  ∀ n, 256 ≤ (calls n).len ∧ ∀ k, (calls n).buf.left k = 0

theorem Roomy.call (h : Roomy calls) (S : Session statsCall 0 calls) (n : ℕ) :
    (S.state (n + 1), S.ret n) =
      if (calls n).stats.text.length ≤ S.state n then (S.state n, ⟨0, []⟩)
      else ((calls n).stats.text.length,
        ⟨((calls n).stats.text.length - S.state n : ℕ),
          (calls n).stats.text.drop (S.state n)⟩) :=
  (Option.some.inj (S.step n)).symm.trans (statsRead_of_room (h n).1 (h n).2)

/-- The first call hands out the whole line. -/
theorem Roomy.first (h : Roomy calls) (S : Session statsCall 0 calls) :
    S.state 1 = (calls 0).stats.text.length ∧ (S.ret 0).code ≠ 0 ∧
      S.received 1 = (calls 0).stats.text := by
  have hne := List.length_pos_of_ne_nil (text_ne_nil (calls 0).stats)
  have hcall := h.call S 0
  rw [S.start, if_neg (by omega), Nat.sub_zero, List.drop_zero] at hcall
  obtain ⟨hstate, hret⟩ := Prod.mk.inj hcall
  refine ⟨hstate, ?_, ?_⟩
  · rw [hret]
    exact Int.natCast_ne_zero.mpr hne.ne'
  · rw [Session.received, Session.received, hret]
    rfl

/-- No call fails, so the reader comes to the end. -/
theorem Roomy.exists_endsAt (h : Roomy calls) (S : Session statsCall 0 calls) :
    ∃ n, S.EndsAt n := by
  have hnonneg : ∀ n, 0 ≤ (S.ret n).code := fun n => by
    have hcode := congrArg (fun x => x.2.code) (h.call S n)
    simp only at hcode
    rw [hcode]
    split <;> simp
  refine S.exists_endsAt (fun ppos => 82 - ppos) (fun n hcode => ?_) ?_
  · have hle := length_text_le (calls n).stats
    cases hands_session S n with
    | nothing _ _ hcode' => exact absurd hcode (not_lt.mpr hcode')
    | piece hk hle' hstate _ _ => omega
  · exact Set.finite_empty.subset fun n hcode => absurd hcode (not_lt.mpr (hnonneg n))

/-- A second line that is longer leaves something behind the first. -/
theorem Roomy.received_longer (h : Roomy calls) (S : Session statsCall 0 calls)
    (hlonger : (calls 0).stats.text.length < (calls 1).stats.text.length) (n : ℕ) :
    ∃ rest, rest ≠ [] ∧ S.received (n + 2) = (calls 0).stats.text ++ rest := by
  obtain ⟨hstate, -, hreceived⟩ := h.first S
  induction n with
  | zero =>
    have hcall := h.call S 1
    rw [hstate, if_neg (by omega)] at hcall
    obtain ⟨-, hret⟩ := Prod.mk.inj hcall
    refine ⟨_, ?_, by rw [Session.received, hreceived, hret]⟩
    refine List.ne_nil_of_length_pos ?_
    rw [List.length_drop]
    omega
  | succ n ih =>
    obtain ⟨rest, hrest, hmore⟩ := ih
    refine ⟨rest ++ (S.ret (n + 2)).out, List.append_ne_nil_of_left_ne_nil hrest _, ?_⟩
    rw [Session.received, hmore, List.append_assoc]

/-- **Reading to the end**: a reader with a large buffer comes to the end of the file. It has got
one line, with the values of its first call, exactly when the text of its second call is not
longer: no counter has got another digit in between. Otherwise there is something behind the
line, and what it has got cannot be read. -/
theorem read_to_end_iff (h : Roomy calls) :
    Nonempty (Session statsCall 0 calls) ∧ ∀ S : Session statsCall 0 calls, (∃ n, S.EndsAt n) ∧
      ∀ n, S.EndsAt n →
        if (calls 1).stats.text.length ≤ (calls 0).stats.text.length then
          readStats (S.received n) = some (calls 0).stats
        else readStats (S.received n) = none := by
  refine ⟨Session.nonempty fun n ppos => ⟨_, _, rfl⟩, fun S => ⟨h.exists_endsAt S, ?_⟩⟩
  intro n hend
  obtain ⟨hstate, hcode, hreceived⟩ := h.first S
  have hcall := h.call S 1
  rw [hstate] at hcall
  match n, hend with
  | 0, hend => exact absurd hend.1 hcode
  | 1, hend =>
    split
    · rw [hreceived, readStats_text]
    · next hlonger =>
      -- the second call has found something
      rw [if_neg hlonger] at hcall
      have hret := (Prod.mk.inj hcall).2
      have hzero := hend.1
      rw [hret] at hzero
      have := Int.natCast_eq_zero.mp hzero
      omega
  | n + 2, hend =>
    split
    · next hshort =>
      -- the second call has found the end
      rw [if_pos hshort] at hcall
      have hret := (Prod.mk.inj hcall).2
      exact absurd (by rw [hret]) (hend.2 1 (by omega))
    · next hlonger =>
      obtain ⟨rest, hrest, hmore⟩ := h.received_longer S (by omega) n
      rw [hmore, readStats_append hrest]

/-- A reader with room for 256 bytes, when `ops` is 9 at first and 10 afterwards. -/
def tenth (n : ℕ) : StatsCall where
  ctx _ := { Ctx.init fun _ => false with ops := if n = 0 then 9 else 10 }
  out := Vector.replicate 256 0
  buf := ⟨fun _ => 0, fun _ => Nat.zero_le _⟩
  len := 256

/-- A reader of it: the last byte of the second line is left behind the first. -/
theorem read_to_end_tenth : ∃ S : Session statsCall 0 tenth, ∃ n, S.EndsAt n ∧
    readStats (S.received n) = none := by
  have hroomy : Roomy tenth := fun n => ⟨le_rfl, fun _ => rfl⟩
  obtain ⟨⟨S⟩, hall⟩ := read_to_end_iff hroomy
  obtain ⟨⟨n, hend⟩, hiff⟩ := hall S
  refine ⟨S, n, hend, ?_⟩
  have hn := hiff n hend
  rwa [if_neg (by decide)] at hn

end CryptoChallenge

end KernelModules
