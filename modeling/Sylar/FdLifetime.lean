import Sylar.Nonblock

/-!
Descriptors that are opened, closed and opened again, and their contexts.

`FdManager::get(fd, true)` leaves a context that is there as it is, so a new descriptor gets a new
context only if the one of its number was removed with the old descriptor. `close` removes it,
but not on a thread where hooking is off.
-/

namespace Sylar.FdLifetime

open Lib Sylar.HookModel

/-- The calls of all threads, each with what the kernel answers: the number and the flags of a new
descriptor, or whether the call succeeds. An `accept` that has to wait is the call at the end of
its wait; what happens meanwhile are other actions. `flags` is what else becomes of the flags of
open descriptors, such as a change through a duplicate. -/
inductive Action
  | socket (hook : Bool) (r : Option (ℕ × Flags)) (o : InitCalls)
  | accept (hook : Bool) (s : ℤ) (r : Option (ℕ × Flags)) (o : InitCalls)
  | close (hook : Bool) (fd : ℤ) (ok : Bool)
  | setfl (fd : ℤ) (arg : Flags) (ok : Bool)
  | getfl (fd : ℤ) (ok : Bool)
  | fcntl (cmd : FcntlCmd) (arg : Option ℤ) (r : Option (ℕ × Desc))
  | setTimeout (hook : Bool) (sockfd : ℤ) (optname : TimeoutSo) (tv_sec tv_usec : ℤ) (ok : Bool)
  | flags (f : ℤ → Flags → Flags)

def opens (r : Option (ℕ × Desc)) : Libc := fun k =>
  match r with
  | none => (-1, k)
  | some (n, d) => (n, k.setDesc n (some d))

/-- The number of the new descriptor is that of no open one. -/
def free (r : Option (ℕ × Desc)) (k : Kernel) : Bool := r.all fun p => (k.descs p.1).isNone

/-- What `socket` and `accept` open is a socket. -/
def socketDesc (r : Option (ℕ × Flags)) : Option (ℕ × Desc) := r.map fun p => (p.1, ⟨p.2, true⟩)

def closes (fd : ℤ) (ok : Bool) : Libc := fun k => if ok then (0, k.setDesc fd none) else (-1, k)

def call (w : World) : Action → Option (ℤ × World)
  | .socket hook r o =>
    if free (socketDesc r) w.kernel then (socket hook w (opens (socketDesc r)) o).toOption
    else none
  | .accept hook s r o =>
    if free (socketDesc r) w.kernel then
      (accept hook w s (opens (socketDesc r)) (fun _ w => w.orig (opens (socketDesc r))) o).toOption
    else none
  | .close hook fd ok => (close hook w fd (closes fd ok)).toOption
  | .setfl fd arg ok => (fcntlSetfl w fd arg ok).toOption
  | .getfl fd ok => (fcntlGetfl w fd ok).toOption.map fun r => (r, w)
  | .fcntl cmd arg r =>
    if free r w.kernel then some (HookModel.fcntl w cmd arg fun _ => opens r) else none
  | .setTimeout hook fd so sec usec ok =>
    (setsockoptTimeout hook w fd so sec usec fun k => (if ok then 0 else -1, k)).toOption.join
  | .flags f =>
    some (0, { w with
      kernel := ⟨fun fd => (w.kernel.descs fd).map fun d => { d with flags := f fd d.flags }⟩ })

def step (w : World) (a : Action) : Option World := (call w a).map Prod.snd

/-- A process that has made no contexts yet. -/
def start (k : Kernel) : World := ⟨fun _ => none, k⟩

/-- The context held for the descriptor describes it, as one just made does. -/
def Describes (w : World) (fd : ℤ) : Prop :=
  ∃ c d, w.datas fd = some c ∧ w.kernel.descs fd = some d ∧ c.isSocket = d.sock ∧
    c.recvTimeout = -1 ∧ c.sendTimeout = -1 ∧ c.userNonblock = false ∧ nonblock d.flags = true

/-- A `socket` or an `accept` on a hooked thread. -/
def Action.makes : Action → Bool
  | .socket hook _ _ | .accept hook _ _ _ => hook
  | _ => false

/-- What a hooked `socket` or `accept` returns has a context that describes it. -/
def Fresh (w : World) (a : Action) : Prop :=
  a.makes = true → ∀ fd w', call w a = some (fd, w') → fd ≥ 0 → Describes w' fd

/-- No descriptor with a context is closed on a thread where hooking is off; and the calls that
`FdCtx::init` makes succeed, as far as the new descriptor needs them. -/
def Cond (w : World) : Action → Prop
  | .close hook fd ok => hook = false → ok = true → w.datas fd = none
  | .socket true (some (_, flags)) o | .accept true _ (some (_, flags)) o =>
    o.fstat = true ∧ (nonblock flags = true ∨ o.getfl = true ∧ o.setfl = true)
  | _ => True

/-! ### The contexts belong to open descriptors -/

def Open (w : World) : Prop := ∀ fd, w.datas fd ≠ none → 0 ≤ fd ∧ w.kernel.descs fd ≠ none

/-- No context is added and no descriptor closed. -/
def Frame (w w' : World) : Prop :=
  (∀ fd, w'.datas fd ≠ none → w.datas fd ≠ none) ∧
  ∀ fd, w.kernel.descs fd ≠ none → w'.kernel.descs fd ≠ none

lemma Open.frame {w w' : World} (h : Open w) (hf : Frame w w') : Open w' :=
  fun fd hfd => ⟨(h fd (hf.1 fd hfd)).1, hf.2 fd (h fd (hf.1 fd hfd)).2⟩

lemma frame_setData {w : World} {fd : ℤ} (hc : w.datas fd ≠ none) (c : Option FdCtx) :
    Frame w (w.setData fd c) := by
  refine ⟨fun fd' hfd' => ?_, fun _ h => h⟩
  by_cases heq : fd' = fd
  · rw [heq]
    exact hc
  · simpa [World.setData, heq] using hfd'

lemma descs_setDesc_some {k : Kernel} {fd : ℤ} (d : Desc) {fd' : ℤ} (h : k.descs fd' ≠ none) :
    (k.setDesc fd (some d)).descs fd' ≠ none := by
  by_cases heq : fd' = fd
  · simp [Kernel.setDesc, heq]
  · simpa [Kernel.setDesc, heq] using h

lemma descs_setfl (ok : Bool) (fd : ℤ) (arg : Flags) {k : Kernel} {fd' : ℤ}
    (h : k.descs fd' ≠ none) : (Kernel.setfl ok fd arg k).2.descs fd' ≠ none := by
  unfold Kernel.setfl
  split
  · exact descs_setDesc_some _ h
  · exact h

lemma descs_opens (r : Option (ℕ × Desc)) {k : Kernel} {fd : ℤ} (h : k.descs fd ≠ none) :
    (opens r k).2.descs fd ≠ none := by
  unfold opens
  split
  · exact h
  · exact descs_setDesc_some _ h

lemma descs_new (n : ℤ) (o : InitCalls) {k : Kernel} {fd : ℤ} (h : k.descs fd ≠ none) :
    (FdCtx.new n o k).2.descs fd ≠ none := by
  unfold FdCtx.new FdCtx.initFlags
  split
  · exact h
  · exact h
  · dsimp only
    split
    · exact descs_setfl _ _ _ h
    · exact h

lemma frame_orig {w : World} {f : Libc}
    (hf : ∀ fd, w.kernel.descs fd ≠ none → (f w.kernel).2.descs fd ≠ none) :
    Frame w (w.orig f).2 := ⟨fun _ h => h, hf⟩

lemma Frame.trans {w w₁ w₂ : World} (h : Frame w w₁) (h' : Frame w₁ w₂) : Frame w w₂ :=
  ⟨fun fd hfd => h.1 fd (h'.1 fd hfd), fun fd hfd => h'.2 fd (h.2 fd hfd)⟩

lemma datas_of_get {w : World} {fd : ℤ} {c : FdCtx} (h : w.get fd = .ok (some c)) :
    w.datas fd ≠ none := by
  unfold World.get at h
  split at h
  · cases h
  · split at h
    · cases h
    · rw [Except.ok.inj h]
      nofun

lemma datas_of_managed {w : World} {fd : ℤ} {ctx : Option FdCtx} {c : FdCtx}
    (hget : w.get fd = .ok ctx) (hm : managed ctx = some c) : w.datas fd ≠ none := by
  obtain ⟨rfl, -⟩ := Option.filter_eq_some_iff.mp hm
  exact datas_of_get hget

/-! ### New descriptors -/

lemma create_cases {w w' : World} {n : ℕ} {o : InitCalls} (h : w.create n o = .ok w') :
    (w.datas n ≠ none ∧ w' = w) ∨
    (w.datas n = none ∧ w' = { w.setData n (some (FdCtx.new n o w.kernel).1) with
      kernel := (FdCtx.new n o w.kernel).2 }) := by
  unfold World.create at h
  rw [get_natCast] at h
  cases hd : w.datas n with
  | some c =>
    rw [hd] at h
    cases h
    exact .inl ⟨nofun, rfl⟩
  | none =>
    rw [hd] at h
    dsimp only at h
    rw [if_neg (by omega)] at h
    cases h
    exact .inr ⟨rfl, rfl⟩

lemma open_create {w w' : World} {n : ℕ} {o : InitCalls} (h : Open w)
    (hn : w.kernel.descs n ≠ none) (hc : w.create n o = .ok w') : Open w' := by
  rcases create_cases hc with ⟨-, rfl⟩ | ⟨-, rfl⟩
  · exact h
  · intro fd hfd
    by_cases heq : fd = n
    · rw [heq]
      exact ⟨by omega, descs_new _ _ hn⟩
    · obtain ⟨hpos, hopen⟩ := h fd (by simpa [World.setData, heq] using hfd)
      exact ⟨hpos, descs_new _ _ hopen⟩

/-- A new descriptor on a number without a context gets one that describes it. -/
lemma describes_create {w w' : World} {n : ℕ} {flags : Flags} {o : InitCalls}
    (hn : w.datas n = none) (hstat : o.fstat = true)
    (ho : nonblock flags = true ∨ o.getfl = true ∧ o.setfl = true)
    (hc : (w.orig (opens (some (n, ⟨flags, true⟩)))).2.create n o = .ok w') : Describes w' n := by
  have ho' : o = ⟨true, o.getfl, o.setfl⟩ := by rw [← hstat]
  have hfstat : (w.kernel.setDesc n (some ⟨flags, true⟩)).fstat true n = some true := by
    simp [Kernel.fstat, Kernel.setDesc]
  obtain ⟨d, hd, hsock, hflag⟩ := Nonblock.initFlags_desc w.kernel n flags o.getfl o.setfl
  rcases create_cases hc with ⟨hsome, -⟩ | ⟨-, rfl⟩
  · exact absurd hn hsome
  · refine ⟨{ fd := n, isInit := true, isSocket := true, sysNonblock := true }, d, ?_, ?_, ?_,
      rfl, rfl, rfl, ?_⟩
    · rw [ho']
      simp [World.setData, World.orig, opens, FdCtx.new, hfstat]
    · rw [ho']
      simp only [World.orig, opens, FdCtx.new, hfstat]
      exact hd
    · exact hsock.symm
    · rw [hflag]
      simpa using ho

/-- What `socket` and `accept` leave: nothing new when they return no descriptor or hooking is
off, or what `get(fd, true)` makes of the new descriptor. -/
def Made (hook : Bool) (w : World) (r : Option (ℕ × Desc)) (o : InitCalls) (fd : ℤ) (w' : World) :
    Prop :=
  (Frame w w' ∧ (hook = true → fd < 0)) ∨
  ∃ n d, r = some (n, d) ∧ fd = n ∧ (w.orig (opens r)).2.create n o = .ok w'

lemma frame_opens (w : World) (r : Option (ℕ × Desc)) : Frame w (w.orig (opens r)).2 :=
  frame_orig fun _ h => descs_opens r h

lemma opens_nonneg {r : Option (ℕ × Desc)} {k : Kernel} (h : ¬ (opens r k).1 = -1) :
    ∃ n d, r = some (n, d) ∧ (opens r k).1 = n := by
  cases r with
  | none => exact absurd rfl h
  | some p => exact ⟨p.1, p.2, rfl, rfl⟩

lemma made_socket {hook : Bool} {w w' : World} {r : Option (ℕ × Desc)} {o : InitCalls} {fd : ℤ}
    (h : (socket hook w (opens r) o).toOption = some (fd, w')) : Made hook w r o fd w' := by
  simp only [socket] at h
  split at h
  · rename_i hh
    cases h
    refine .inl ⟨frame_opens w r, fun hhook => ?_⟩
    rcases hh with hh | hh
    · cases hhook.symm.trans hh
    · show (w.orig (opens r)).1 < 0
      rw [hh]
      omega
  · rename_i hh
    obtain ⟨n, d, rfl, hn⟩ := opens_nonneg fun h => hh (.inr h)
    split at h
    · cases h
    · rename_i w₁ hc
      cases h
      exact .inr ⟨n, d, rfl, rfl, hc⟩

lemma doIo_cases {hook : Bool} {w : World} {s : ℤ} {so : TimeoutSo} {f : Libc} {r : ℤ × World}
    (h : doIo hook w s so f (fun _ w => w.orig f) = .ok r) : r = (-1, w) ∨ r = w.orig f := by
  unfold doIo at h
  split at h
  · cases h
    exact .inr rfl
  · split at h
    · cases h
    · split at h
      · cases h
        exact .inr rfl
      · cases h
        exact .inl rfl
      · cases h
        exact .inr rfl

lemma made_accept {hook : Bool} {w w' : World} {s : ℤ} {r : Option (ℕ × Desc)} {o : InitCalls}
    {fd : ℤ} (h : (accept hook w s (opens r) (fun _ w => w.orig (opens r)) o).toOption =
      some (fd, w')) : Made hook w r o fd w' := by
  unfold accept at h
  split at h
  · cases h
  · rename_i r₁ hr₁
    split at h
    · rename_i hge
      rcases doIo_cases hr₁ with rfl | rfl
      · exact absurd hge (by show ¬ (-1 : ℤ) ≥ 0; omega)
      · obtain ⟨n, d, rfl, hn⟩ := opens_nonneg (r := r) (k := w.kernel) fun h => by
          rw [World.orig, h] at hge
          omega
        split at h
        · cases h
        · rename_i w₁ hc
          cases h
          exact .inr ⟨n, d, rfl, rfl, hc⟩
    · rename_i hlt
      cases h
      refine .inl ⟨?_, fun _ => by omega⟩
      rcases doIo_cases hr₁ with heq | heq
      · rw [(Prod.mk.inj heq).2]
        exact ⟨fun _ h => h, fun _ h => h⟩
      · rw [(Prod.mk.inj heq).2]
        exact frame_opens w r

/-! ### The other calls -/

lemma frame_setfl {w w' : World} {fd r : ℤ} {arg : Flags} {ok : Bool}
    (h : (fcntlSetfl w fd arg ok).toOption = some (r, w')) : Frame w w' := by
  unfold fcntlSetfl at h
  split at h
  · cases h
  · rename_i ctx hget
    split at h
    · cases h
      exact frame_orig fun _ h => descs_setfl _ _ _ h
    · rename_i c hm
      cases h
      refine Frame.trans (frame_setData ?_ _) (frame_orig fun _ h => descs_setfl _ _ _ h)
      exact datas_of_managed hget hm

lemma frame_setTimeout {hook : Bool} {w w' : World} {fd sec usec r : ℤ} {so : TimeoutSo}
    {f : Libc} (hf : ∀ k, (f k).2 = k)
    (h : (setsockoptTimeout hook w fd so sec usec f).toOption.join = some (r, w')) :
    Frame w w' := by
  have horig (w₁ : World) : Frame w₁ (w₁.orig f).2 := frame_orig fun fd h => by rwa [hf]
  unfold setsockoptTimeout at h
  split at h
  · cases h
    exact horig w
  · split at h
    · cases h
    · cases h
      exact horig w
    · rename_i c hget
      cases htv : timevalMs sec usec with
      | none =>
        rw [htv] at h
        cases h
      | some v =>
        rw [htv] at h
        cases h
        exact Frame.trans (frame_setData (datas_of_get hget) _) (horig _)

/-- `close`, unless it is for a descriptor with a context and hooking is off. -/
lemma open_close {hook : Bool} {w w' : World} {fd r : ℤ} {ok : Bool} (h : Open w)
    (hc : hook = false → ok = true → w.datas fd = none)
    (hs : (close hook w fd (closes fd ok)).toOption = some (r, w')) : Open w' := by
  -- whatever happens to the descriptor, no context is left for it if it is closed
  have horig (w₁ : World) (h₁ : Open w₁) (hnone : ok = true → w₁.datas fd = none) :
      Open (w₁.orig (closes fd ok)).2 := by
    intro fd' hfd'
    cases ok with
    | false => exact h₁ fd' hfd'
    | true =>
      have hne : fd' ≠ fd := by
        rintro rfl
        exact hfd' (hnone rfl)
      obtain ⟨hpos, hopen⟩ := h₁ fd' hfd'
      exact ⟨hpos, by simpa [World.orig, closes, Kernel.setDesc, hne] using hopen⟩
  unfold close at hs
  split at hs
  · rename_i hhook
    cases hs
    exact horig w h (hc hhook)
  · split at hs
    · cases hs
    · rename_i hget
      cases hs
      refine horig w h fun _ => ?_
      by_contra hsome
      rw [World.get, if_neg (by have := (h fd hsome).1; omega),
        if_neg (by have := (h fd hsome).1; omega)] at hget
      exact hsome (Except.ok.inj hget)
    · rename_i c hget
      cases hs
      refine horig (w.del fd) (h.frame (frame_setData (datas_of_get hget) none)) fun _ => ?_
      simp [World.del, World.setData]

/-! ### Runs -/

lemma open_made {hook : Bool} {w w' : World} {r : Option (ℕ × Desc)} {o : InitCalls} {fd : ℤ}
    (h : Open w) (hm : Made hook w r o fd w') : Open w' := by
  rcases hm with ⟨hf, -⟩ | ⟨n, d, rfl, -, hc⟩
  · exact h.frame hf
  · refine open_create (h.frame (frame_opens w _)) ?_ hc
    simp [World.orig, opens, Kernel.setDesc]

lemma call_open {w w' : World} {a : Action} {r : ℤ} (h : Open w) (hc : Cond w a)
    (hs : call w a = some (r, w')) : Open w' := by
  cases a with
  | socket hook r o =>
    simp only [call] at hs
    split at hs
    · exact open_made h (made_socket hs)
    · cases hs
  | accept hook s r o =>
    simp only [call] at hs
    split at hs
    · exact open_made h (made_accept hs)
    · cases hs
  | close hook fd ok => exact open_close h hc hs
  | setfl fd arg ok => exact h.frame (frame_setfl hs)
  | getfl fd ok =>
    obtain ⟨_, -, heq⟩ := Option.map_eq_some_iff.mp hs
    cases heq
    exact h
  | fcntl cmd arg r =>
    simp only [call] at hs
    split at hs
    · cases hs
      exact h.frame (frame_opens w r)
    · cases hs
  | setTimeout hook fd so sec usec ok => exact h.frame (frame_setTimeout (fun _ => rfl) hs)
  | flags f =>
    cases hs
    refine h.frame ⟨fun _ h => h, fun fd hfd => ?_⟩
    simpa using hfd

lemma step_open (w : World) (a : Action) (w' : World) (h : Open w) (hc : Cond w a)
    (hs : step w a = some w') : Open w' := by
  obtain ⟨⟨r, w₁⟩, hcall, rfl⟩ := Option.map_eq_some_iff.mp hs
  exact call_open h hc hcall

lemma datas_of_free {w : World} {n : ℕ} {d : Desc} (h : Open w)
    (hf : free (some (n, d)) w.kernel = true) : w.datas n = none := by
  by_contra hsome
  have hnone : w.kernel.descs n = none := by simpa [free] using hf
  exact (h n hsome).2 hnone

lemma describes_made {w w' : World} {r : Option (ℕ × Flags)} {o : InitCalls} {fd : ℤ}
    (h : Open w) (hf : free (socketDesc r) w.kernel = true)
    (ho : ∀ n flags, r = some (n, flags) → o.fstat = true ∧
      (nonblock flags = true ∨ o.getfl = true ∧ o.setfl = true))
    (hm : Made true w (socketDesc r) o fd w') (hfd : fd ≥ 0) : Describes w' fd := by
  rcases hm with ⟨-, hneg⟩ | ⟨n, d, hr, rfl, hc⟩
  · exact absurd (hneg rfl) (by omega)
  · cases r with
    | none => cases hr
    | some p =>
      cases hr
      obtain ⟨hstat, hflags⟩ := ho _ _ rfl
      exact describes_create (datas_of_free h hf) hstat hflags hc

lemma fresh_of_cond {w : World} {a : Action} (h : Open w) (hc : Cond w a) : Fresh w a := by
  intro hmakes fd w' hcall hfd
  cases a with
  | socket hook r o =>
    obtain rfl : hook = true := hmakes
    simp only [call] at hcall
    split at hcall
    · rename_i hf
      refine describes_made h hf ?_ (made_socket hcall) hfd
      rintro n flags rfl
      exact hc
    · cases hcall
  | accept hook s r o =>
    obtain rfl : hook = true := hmakes
    simp only [call] at hcall
    split at hcall
    · rename_i hf
      refine describes_made h hf ?_ (made_accept hcall) hfd
      rintro n flags rfl
      exact hc
    · cases hcall
  | _ => cases hmakes

/-- **Every new socket gets a fresh context as long as no descriptor with a context is closed where
hooking is off.** In every run from a process without contexts whose actions all meet the
condition, a `socket` or `accept` on a hooked thread that returns a descriptor leaves a context
that describes it: with `isSocket()`, no timeouts, not in the user's non-blocking mode, and with
`O_NONBLOCK` set in the kernel. -/
theorem fresh_of_no_unhooked_close (k : Kernel) (as : List Action)
    (h : Runs.Meets step Cond (start k) as) : Runs.Meets step Fresh (start k) as := by
  refine Runs.meets_iff_split.mpr fun pre a post w has hr => ?_
  rw [has] at h
  obtain ⟨hpre, hc, -⟩ := Runs.meets_append h hr
  have hopen : Open w := Runs.run_inv_of_meets step_open (fun _ h => absurd rfl h) hpre hr
  exact fresh_of_cond hopen hc

/-- A number is used again after a `close` on a hooked thread. -/
theorem fresh_of_no_unhooked_close_reused :
    (Runs.run step (start ⟨fun _ => none⟩)
      [.socket true (some (5, 2)) {}, .close true 5 true, .accept true 3 (some (5, 2)) {}]).isSome ∧
    Runs.Meets step Fresh (start ⟨fun _ => none⟩)
      [.socket true (some (5, 2)) {}, .close true 5 true, .accept true 3 (some (5, 2)) {}] := by
  refine ⟨by decide, fresh_of_no_unhooked_close _ _ ⟨⟨rfl, .inr ⟨rfl, rfl⟩⟩, fun _ _ => ?_⟩⟩
  exact ⟨nofun, fun _ _ => ⟨⟨rfl, .inr ⟨rfl, rfl⟩⟩, fun _ _ => trivial⟩⟩

/-- A number is used again after a `close` where hooking is off: the old context is still there,
and the new socket stays in blocking mode. -/
theorem stale_context_is_kept :
    ¬ Runs.Meets step Fresh (start ⟨fun _ => none⟩)
      [.socket true (some (5, 2)) {}, .close false 5 true, .socket true (some (5, 2)) {}] := by
  intro h
  obtain ⟨c, d, -, hd, -, -, -, -, hflag⟩ :=
    ((h.2 _ rfl).2 _ rfl).1 rfl 5 _ rfl (by decide)
  cases hd
  cases hflag

end Sylar.FdLifetime
