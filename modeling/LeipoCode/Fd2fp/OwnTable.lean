import LeipoCode.Fd2fp.Model

/-!
# Which devices the ioctl reads

`fd2fp_module_open` stores `&fd2fpDevice[minor]` for every minor the kernel lets
through, while the table has `FD2FP_MAX_DEVICES` entries; and the ioctl goes through
the `private_data` of any file it is given a descriptor of.  So what a dereference
reads depends on the file alone, and `Inv` says how: a file of the module points at
its own minor, in or past the table, and a file of another driver never points into
the table.

That gives the exact condition on a call, in every reachable state, and its
consequence for runs.

The condition of a call is on the file it is given: that it is a file of the module, and that its
minor is in the table.  A run whose calls meet it reads only the devices it was meant to, in all its
steps; and in every reachable state a call outside it reads behind the table or through a pointer of
somebody else, so the condition cannot be weakened.

### How it goes

`Inv` is about files and not about calls: every descriptor refers to a file that is there, and its
`private_data` is what its owner has stored (`File.PrivateOk`).  A step either makes a descriptor
refer to a file that is as it should be, or writes a file that no descriptor refers to, or one of
another driver (`Inv.install`, `Inv.write_unreferenced`); that `release` clears the pointer is seen
by nobody for the same reason.  What an ioctl reads is then a matter of the file that `fcheck`
finds, and `deref_sound_iff` needs no more of the state than the invariant.
-/

namespace LeipoCode.Fd2fp

/-- The dereference reads an element of the table, and the one the file is for. -/
def Deref.Sound (d : Deref) : Prop :=
  ∃ device, d.fd2fpDev.device = some device ∧ device.id = d.minor

/-- The descriptor passed in a `FD2FP_PASS_FD` call is not open, or open on a file of
this module whose minor number is in the table. -/
def Call.PassOk (s : State) : Call → Prop
  | .ioctl pid _ cmd (some fd) =>
      cmd = FD2FP_PASS_FD → ∀ file, fcheck s pid fd = some file →
        file.owner = .fd2fp ∧ file.minor < FD2FP_MAX_DEVICES
  | _ => True

/-- What open files keep in their `private_data`: a file of the module its own minor, in the table
or behind it, and a file of another driver nothing that points into it. -/
def File.PrivateOk (file : File) : Prop :=
  match file.owner with
  | .fd2fp => file.privateData = .dev file.minor
  | .other => ∀ index, file.privateData ≠ .dev index

/-- Every descriptor refers to a file with such a `private_data`: the invariant of all runs. -/
def Inv (s : State) : Prop :=
  ∀ pid fd f, s.fds pid fd = some f → ∃ file, s.files f = some file ∧ file.PrivateOk

/-! ### The table -/

theorem getElem?_fd2fpDevice {i : ℕ} (hi : i < FD2FP_MAX_DEVICES) :
    fd2fpDevice[i]? = some ⟨i, "fd2fp" ++ toString i⟩ := by
  rw [fd2fpDevice, List.getElem?_map, List.getElem?_range hi]
  rfl

theorem getElem?_fd2fpDevice_none {i : ℕ} (hi : FD2FP_MAX_DEVICES ≤ i) :
    fd2fpDevice[i]? = none := by
  rw [fd2fpDevice, List.getElem?_map, List.getElem?_eq_none (by simpa using hi)]
  rfl

/-- A file's `private_data` points at its own device in the table exactly if the file
is one of the module with a minor number of the table. -/
theorem File.PrivateOk.device_iff {file : File} (h : file.PrivateOk) :
    (∃ device, file.privateData.device = some device ∧ device.id = file.minor) ↔
      file.owner = .fd2fp ∧ file.minor < FD2FP_MAX_DEVICES := by
  unfold File.PrivateOk at h
  cases howner : file.owner with
  | fd2fp =>
      simp only [howner] at h
      rw [h, PrivateData.device]
      rcases Nat.lt_or_ge file.minor FD2FP_MAX_DEVICES with hlt | hge
      · rw [getElem?_fd2fpDevice hlt]
        exact iff_of_true ⟨_, rfl, rfl⟩ ⟨rfl, hlt⟩
      · rw [getElem?_fd2fpDevice_none hge]
        refine iff_of_false ?_ fun hin => absurd hin.2 (Nat.not_lt.mpr hge)
        rintro ⟨device, hdevice, -⟩
        cases hdevice
  | other =>
      -- Another driver may store anything but the address of a device of this one.
      simp only [howner] at h
      refine iff_of_false ?_ fun hin => Owner.noConfusion hin.1
      rintro ⟨device, hdevice, -⟩
      cases hp : file.privateData with
      | dev index => exact h index hp
      | null => simp [hp, PrivateData.device] at hdevice
      | other address => simp [hp, PrivateData.device] at hdevice

/-! ### The invariant -/

section Step

variable {s : State} {pid : Pid} {fd : ℤ} {f : FileId}

theorem install_fds (pid' : Pid) (fd' : ℤ) (g : Option FileId) :
    (s.install pid fd g).fds pid' fd' =
      if pid' = pid ∧ fd' = fd then g else s.fds pid' fd' := by
  unfold State.install
  by_cases hpid : pid' = pid
  · subst hpid
    by_cases hfd : fd' = fd
    · subst hfd
      simp
    · simp [hfd]
  · simp [hpid]

theorem write_files_of_ne {g : FileId} (file : Option File) (hne : g ≠ f) :
    (s.write f file).files g = s.files g :=
  Function.update_of_ne hne _ _

/-- A descriptor is made to refer to a file that is as it should be, or to none. -/
theorem Inv.install (h : Inv s) {g : Option FileId}
    (hg : ∀ f, g = some f → ∃ file, s.files f = some file ∧ file.PrivateOk) :
    Inv (s.install pid fd g) := by
  intro pid' fd' f hf
  rw [install_fds] at hf
  split_ifs at hf with hsame
  · exact hg f hf
  · exact h pid' fd' f hf

/-- A file that no descriptor refers to may be written, or given back, without a descriptor
noticing. -/
theorem Inv.write_unreferenced (h : Inv s) (hf : Unreferenced s f) (file : Option File) :
    Inv (s.write f file) := by
  intro pid' fd' g hg
  have hne : g ≠ f := by
    rintro rfl
    exact hf pid' fd' hg
  rw [write_files_of_ne _ hne]
  exact h pid' fd' g hg

/-- **The step lemma**: every call that can be made keeps the tables and the files in order. -/
theorem Inv.next (h : Inv s) {c : Call} (hc : c.Enabled s) : Inv (c.next s) := by
  cases c with
  | openFd2fp pid fd f minor =>
      apply (h.write_unreferenced hc.1.2.2 _).install
      rintro g ⟨rfl⟩
      exact ⟨_, Function.update_self _ _ _, rfl⟩
  | openOther pid fd f file =>
      apply (h.write_unreferenced hc.1.2.2 _).install
      rintro g ⟨rfl⟩
      refine ⟨file, Function.update_self _ _ _, ?_⟩
      rw [File.PrivateOk, hc.2.1]
      exact hc.2.2
  | dup pid fd pid' fd' =>
      apply h.install
      intro f hf
      exact h pid fd f hf
  | close pid fd =>
      apply h.install
      intro f hf
      cases hf
  | release f => exact h.write_unreferenced hc.1 _
  | otherWrite f p =>
      -- The file written may be referred to, by several descriptors even.
      obtain ⟨⟨file, hfile, howner⟩, hp⟩ := hc
      intro pid' fd' g hg
      by_cases hgf : g = f
      · subst hgf
        refine ⟨{ file with privateData := p }, ?_, ?_⟩
        · simp [Call.next, State.write, hfile]
        · rw [File.PrivateOk, howner]
          exact hp
      · obtain ⟨file', hfile', hok⟩ := h pid' fd' g hg
        exact ⟨file', (write_files_of_ne _ hgf).trans hfile', hok⟩
  | ioctl _ _ _ _ => exact h

theorem inv_initial : Inv initial := by
  intro pid fd f hf
  cases hf

/-- The files the ioctl finds by a descriptor are as they should be, whoever has opened them. -/
theorem Inv.fcheck (h : Inv s) {file : File} (hfile : fcheck s pid fd = some file) :
    file.PrivateOk := by
  unfold Fd2fp.fcheck at hfile
  split_ifs at hfile
  obtain ⟨f, hf, hfile⟩ := Option.bind_eq_some_iff.mp hfile
  obtain ⟨file', hfile', hok⟩ := h pid fd f hf
  rw [hfile] at hfile'
  obtain rfl := Option.some.inj hfile'
  exact hok

/-- The only call that dereferences anything is the ioctl that passes a descriptor, and what it
reads is the file of that descriptor. -/
theorem deref_eq_some {c : Call} {d : Deref} :
    c.deref s = some d ↔ ∃ pid filp fd file,
      c = .ioctl pid filp FD2FP_PASS_FD (some fd) ∧ Fd2fp.fcheck s pid fd = some file ∧
        d = ⟨fd, file.privateData, file.major, file.minor⟩ := by
  have htype : IOC_TYPE FD2FP_PASS_FD = FD2FP_MAGIC_NUMBER := by decide
  constructor
  · intro h
    cases c with
    | ioctl pid filp cmd arg =>
        simp only [Call.deref, fd2fpModuleIoctl] at h
        split_ifs at h with _ hcmd
        subst hcmd
        cases arg with
        | none => cases h
        | some fd =>
            cases hfile : Fd2fp.fcheck s pid fd with
            | none => simp [hfile] at h
            | some file =>
                simp only [hfile, Option.some.injEq] at h
                exact ⟨pid, filp, fd, file, rfl, hfile, h.symm⟩
    | _ => cases h
  · rintro ⟨pid, filp, fd, file, rfl, hfile, rfl⟩
    simp [Call.deref, fd2fpModuleIoctl, htype, hfile]

/-- **The exact condition on one call**, in a state that is in order: what it reads is sound just if
the file it is passed may be passed. -/
theorem deref_sound_iff (h : Inv s) (c : Call) :
    (∀ d, c.deref s = some d → d.Sound) ↔ c.PassOk s := by
  constructor
  · intro hsound
    unfold Call.PassOk
    split
    · rintro rfl file hfile
      exact (h.fcheck hfile).device_iff.mp
        (hsound _ (deref_eq_some.mpr ⟨_, _, _, file, rfl, hfile, rfl⟩))
    · trivial
  · intro hpass d hd
    obtain ⟨pid, filp, fd, file, rfl, hfile, rfl⟩ := deref_eq_some.mp hd
    exact (h.fcheck hfile).device_iff.mpr (hpass rfl file hfile)

end Step

theorem inv_run {s : State} {ls : List (Call × Option Deref)}
    (hrun : fd2fpSys.Run initial ls s) : Inv s := by
  refine hrun.invariant ?_ inv_initial
  rintro s l s' hinv ⟨hc, rfl, -⟩
  exact hinv.next hc

/-- **What the ioctl reads.**  After every run of opens of any openable minor, opens
of other drivers' files, duplications, closes, releases and ioctls:

* a call dereferences elements of the device table only, each the one its file is
  for, if and only if the call meets `PassOk`;
* so if every call of the run met it, every dereference of the run was such. -/
theorem fd2fp_reads_own_table {s : State} {ls : List (Call × Option Deref)}
    (hrun : fd2fpSys.Run initial ls s) :
    (∀ c : Call, (∀ d, c.deref s = some d → d.Sound) ↔ c.PassOk s) ∧
    ((fd2fpSys.restrict fun s l => l.1.PassOk s).Run initial ls s →
      ∀ l ∈ ls, ∀ d, l.2 = some d → d.Sound) := by
  refine ⟨deref_sound_iff (inv_run hrun), ?_⟩
  intro hpass
  refine (hpass.invariant_trace
    (I := fun ls s => Inv s ∧ ∀ l ∈ ls, ∀ d, l.2 = some d → d.Sound)
    ⟨inv_initial, by simp⟩ ?_).2
  rintro ls l s s' ⟨hinv, hsound⟩ ⟨hok, hc, rfl, hd⟩
  refine ⟨hinv.next hc, ?_⟩
  intro m hm d hmd
  rcases List.mem_append.mp hm with hm | hm
  · exact hsound m hm d hmd
  · obtain rfl := List.mem_singleton.mp hm
    exact (deref_sound_iff hinv m.1).mpr hok d (hd.symm.trans hmd)

/-- The state after an open of minor `minor` as descriptor 3 of process 1. -/
def openedAt3 (minor : ℕ) : State := Call.next initial (.openFd2fp 1 3 0 minor)

theorem run_openedAt3 {minor : ℕ} (hminor : minor < 256) :
    fd2fpSys.Run initial [(.openFd2fp 1 3 0 minor, none)] (openedAt3 minor) :=
  LTS.Run.nil.snoc (l := (Call.openFd2fp 1 3 0 minor, none))
    ⟨⟨⟨by decide, rfl, by simp [Unreferenced, initial]⟩, hminor⟩, rfl, rfl⟩

/-- The device of minor 2 is read through a descriptor for it. -/
theorem fd2fp_reads_own_table_run :
    ∃ d, Call.deref (openedAt3 2) (.ioctl 1 3 FD2FP_PASS_FD (some 3)) = some d ∧ d.Sound := by
  refine ⟨_, rfl, ?_⟩
  refine ((fd2fp_reads_own_table (run_openedAt3 (by decide : 2 < 256))).1
    (.ioctl 1 3 FD2FP_PASS_FD (some 3))).mpr ?_ _ rfl
  intro _ file hfile
  obtain rfl := Option.some.inj hfile
  exact ⟨rfl, by decide⟩

/-- Minor 4 can be opened, and the ioctl then reads behind the table; and it goes
through the `private_data` of another driver's file. -/
theorem ioctl_reads_elsewhere :
    ∃ s d₁ d₂, fd2fpSys.Run initial
        [(.openFd2fp 1 3 0 4, none), (.openOther 1 4 1 ⟨.other, 1, 3, .other 4096⟩, none),
          (.ioctl 1 3 FD2FP_PASS_FD (some 3), some d₁),
          (.ioctl 1 3 FD2FP_PASS_FD (some 4), some d₂)] s ∧
      d₁.fd2fpDev = .dev 4 ∧ d₂.fd2fpDev = .other 4096 ∧ ¬ d₁.Sound ∧ ¬ d₂.Sound := by
  have hopen := (run_openedAt3 (by decide : 4 < 256)).snoc
    (l := (Call.openOther 1 4 1 ⟨.other, 1, 3, .other 4096⟩, none))
    ⟨⟨⟨by decide, rfl, ?fresh⟩, rfl, by simp⟩, rfl, rfl⟩
  case fresh =>
    intro pid fd
    simp only [openedAt3, Call.next, install_fds]
    split_ifs <;> simp [State.write, initial]
  have hrun := hopen.snoc (l := (Call.ioctl 1 3 FD2FP_PASS_FD (some 3), some _))
    ⟨⟨_, rfl, rfl⟩, rfl, rfl⟩
  have hrun := hrun.snoc (l := (Call.ioctl 1 3 FD2FP_PASS_FD (some 4), some _))
    ⟨⟨_, rfl, rfl⟩, rfl, rfl⟩
  refine ⟨_, _, _, hrun, rfl, rfl, ?_, ?_⟩
  · rintro ⟨device, hdevice, -⟩
    cases hdevice
  · rintro ⟨device, hdevice, -⟩
    cases hdevice

end LeipoCode.Fd2fp
