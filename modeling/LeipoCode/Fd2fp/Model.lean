import LeipoCode.Lib.LTS
import Mathlib.Data.Int.Notation
import Mathlib.Logic.Function.Basic

/-!
# The fd2fp kernel module

`fd2fp/kernel_fd2fp_module.c` hands each open file of its own a pointer into a table
of devices, and has one ioctl that takes a file descriptor from user space, looks the
file up and prints the device its `private_data` points to.

The kernel around the module is the system here: processes with descriptor tables,
`struct file`s that several descriptors may share, and files of other drivers, with
whatever those keep in `private_data`.  Its steps are the calls that reach the
module, and those that change who holds which file.  What is assumed of the kernel:

* `register_chrdev` makes minors 0 to 255 openable;
* `release` is called when no descriptor refers to the file any more, and only a
  `struct file` no descriptor refers to is used for another open;
* another driver never stores a pointer into this module's table.

### What is load-bearing

Which device an ioctl reads is decided by a pointer that was stored when the file was opened, by
this module or by another driver.  So the model keeps `private_data` as a value that tells whose it
is, and where in the table it points; what another driver keeps there is arbitrary, but for the last
assumption.  That a descriptor may be shared, duplicated, inherited or closed at any time is in the
steps, since an ioctl looks up the file that its descriptor refers to at that moment.
-/

namespace LeipoCode.Fd2fp

/-! ### The module's data -/

def FD2FP_MAGIC_NUMBER : ℕ := 234

def FD2FP_MAJOR : ℕ := FD2FP_MAGIC_NUMBER

def FD2FP_MAX_DEVICES : ℕ := 4

/-- `_IOW(type, nr, size)`: an ioctl number, with the direction in its top bits and the four parts
side by side. -/
def IOW (type nr size : BitVec 32) : BitVec 32 :=
  1 <<< 30 ||| size <<< 16 ||| type <<< 8 ||| nr

/-- `_IOC_TYPE(cmd)`: the eight bits of an ioctl number that tell the module's own from all others.
-/
def IOC_TYPE (cmd : BitVec 32) : ℕ := ((cmd >>> 8) &&& 0xFF).toNat

def FD2FP_PASS_FD : BitVec 32 := IOW (BitVec.ofNat 32 FD2FP_MAGIC_NUMBER) 1 4

/-- `FD2FP_Device_t`, with what the `printk` shows of it: its number in the table and its name. -/
structure Device where
  id : ℕ
  devName : String
deriving DecidableEq, Repr

/-- The table `fd2fpDevice` as `fd2fp_device_reset` leaves it when the module is
loaded; nothing writes it later. -/
def fd2fpDevice : List Device :=
  (List.range FD2FP_MAX_DEVICES).map fun i => ⟨i, "fd2fp" ++ toString i⟩

/-- What a `private_data` may hold: NULL, `&fd2fpDevice[index]` for an index that need
not be one of the table, or a pointer that belongs to another driver. -/
inductive PrivateData
  | null
  | dev (index : ℕ)
  | other (address : ℕ)
deriving DecidableEq, Repr

/-- The device a pointer points to, if it points to one: a pointer behind the table does not, nor
does one of another driver. -/
def PrivateData.device : PrivateData → Option Device
  | .dev index => fd2fpDevice[index]?
  | _ => none

/-- Whose operations a file has, which are fixed when it is opened, by its device number. -/
inductive Owner
  | fd2fp
  | other
deriving DecidableEq, Repr

/-- `struct file`, with the device numbers of the inode behind it, which the `printk` shows too. -/
structure File where
  owner : Owner
  major : ℕ
  minor : ℕ
  privateData : PrivateData
deriving DecidableEq, Repr

abbrev FileId := ℕ
abbrev Pid := ℕ

/-- The descriptor tables of all processes, and the `struct file`s, which descriptors may share. -/
structure State where
  fds : Pid → ℤ → Option FileId
  files : FileId → Option File

/-! ### The module's operations -/

/-- `fd2fp_module_open`, on an inode with this minor number, which is not compared with the size of
the table. -/
def fd2fpModuleOpen (minor : ℕ) (filp : File) : File :=
  { filp with privateData := .dev minor }

/-- `fd2fp_module_release`: the pointer is cleared, when nobody refers to the file any more. -/
def fd2fpModuleRelease (filp : File) : File :=
  { filp with privateData := .null }

/-- The `printk` of the ioctl: the device pointer it goes through, and the numbers of
the file it was taken from. -/
structure Deref where
  fd : ℤ
  fd2fpDev : PrivateData
  major : ℕ
  minor : ℕ
deriving DecidableEq, Repr

def EFAULT : ℤ := 14

/-- `fcheck(fd)`, in the process `pid`: the file of any driver, if the descriptor is open. -/
def fcheck (s : State) (pid : Pid) (fd : ℤ) : Option File :=
  if 0 ≤ fd then (s.fds pid fd).bind s.files else none

/-- `fd2fp_module_ioctl`: the value it returns, and the dereference it makes if it
makes one.  `arg` is what `__copy_from_user` delivers, nothing if it fails.  A command
of another type is refused with 0, since the error code is set and then not
returned. -/
def fd2fpModuleIoctl (s : State) (pid : Pid) (cmd : BitVec 32) (arg : Option ℤ) :
    ℤ × Option Deref :=
  if IOC_TYPE cmd ≠ FD2FP_MAGIC_NUMBER then
    (0, none)
  else if cmd = FD2FP_PASS_FD then
    match arg with
    | none => (-EFAULT, none)
    | some fd =>
        match fcheck s pid fd with
        | some fp => (0, some ⟨fd, fp.privateData, fp.major, fp.minor⟩)
        | none => (0, none)
  else
    (0, none)

/-! ### Calls -/

/-- The calls, with the process that makes them and the numbers the kernel picks. -/
inductive Call
  /-- `open` of a node of this module. -/
  | openFd2fp (pid : Pid) (fd : ℤ) (f : FileId) (minor : ℕ)
  /-- `open` of anything else. -/
  | openOther (pid : Pid) (fd : ℤ) (f : FileId) (file : File)
  /-- A second descriptor for an open file: `dup`, `fork`, a descriptor in a
  message. -/
  | dup (pid : Pid) (fd : ℤ) (pid' : Pid) (fd' : ℤ)
  | close (pid : Pid) (fd : ℤ)
  /-- The call of `release` for a file of this module. -/
  | release (f : FileId)
  /-- Another driver writes the `private_data` of its own file. -/
  | otherWrite (f : FileId) (p : PrivateData)
  /-- `ioctl` on a descriptor of this module. -/
  | ioctl (pid : Pid) (filp : ℤ) (cmd : BitVec 32) (arg : Option ℤ)
deriving DecidableEq, Repr

/-- No descriptor refers to `f`, in any process.  This is what the kernel counts the references of a
file for. -/
def Unreferenced (s : State) (f : FileId) : Prop := ∀ pid fd, s.fds pid fd ≠ some f

/-- A free descriptor and a `struct file` that is not in use, as an open gets them. -/
def Fresh (s : State) (pid : Pid) (fd : ℤ) (f : FileId) : Prop :=
  0 ≤ fd ∧ s.fds pid fd = none ∧ Unreferenced s f

/-- What the kernel promises of a call: which minors reach the module, that a new file is not in
use, and that another driver keeps no pointer into the table. -/
def Call.Enabled (s : State) : Call → Prop
  | .openFd2fp pid fd f minor => Fresh s pid fd f ∧ minor < 256
  | .openOther pid fd f file =>
      Fresh s pid fd f ∧ file.owner = .other ∧ ∀ index, file.privateData ≠ .dev index
  | .dup pid fd pid' fd' => s.fds pid fd ≠ none ∧ 0 ≤ fd' ∧ s.fds pid' fd' = none
  | .close pid fd => s.fds pid fd ≠ none
  | .release f => Unreferenced s f ∧ ∃ file, s.files f = some file ∧ file.owner = .fd2fp
  | .otherWrite f p =>
      (∃ file, s.files f = some file ∧ file.owner = .other) ∧ ∀ index, p ≠ .dev index
  | .ioctl pid filp _ _ => ∃ file, fcheck s pid filp = some file ∧ file.owner = .fd2fp

/-- Make `fd` of `pid` refer to `f`, or to nothing; no other descriptor changes, of this process or
another. -/
def State.install (s : State) (pid : Pid) (fd : ℤ) (f : Option FileId) : State :=
  { s with fds := Function.update s.fds pid (Function.update (s.fds pid) fd f) }

/-- Write the `struct file` `f`, which all descriptors see that refer to it. -/
def State.write (s : State) (f : FileId) (file : Option File) : State :=
  { s with files := Function.update s.files f file }

/-- The state after a call.  An ioctl changes nothing: all it does is to look a file up and print.
-/
def Call.next (s : State) : Call → State
  | .openFd2fp pid fd f minor =>
      (s.write f (some (fd2fpModuleOpen minor ⟨.fd2fp, FD2FP_MAJOR, minor, .null⟩))).install
        pid fd (some f)
  | .openOther pid fd f file => (s.write f (some file)).install pid fd (some f)
  | .dup pid fd pid' fd' => s.install pid' fd' (s.fds pid fd)
  | .close pid fd => s.install pid fd none
  | .release f => s.write f ((s.files f).map fd2fpModuleRelease)
  | .otherWrite f p => s.write f ((s.files f).map fun file => { file with privateData := p })
  | .ioctl _ _ _ _ => s

/-- The dereference a call makes, if it is an ioctl that gets so far; no other call follows a
`private_data`. -/
def Call.deref (s : State) : Call → Option Deref
  | .ioctl pid _ cmd arg => (fd2fpModuleIoctl s pid cmd arg).2
  | _ => none

/-- The kernel with the module loaded and no file open, neither one of the module nor of another
driver. -/
def initial : State := ⟨fun _ _ => none, fun _ => none⟩

/-- The system.  A label is a call with the dereference it makes, so a run says what was read and by
which call. -/
def fd2fpSys : LTS State (Call × Option Deref) where
  init s := s = initial
  step s l s' := l.1.Enabled s ∧ s' = l.1.next s ∧ l.2 = l.1.deref s

end LeipoCode.Fd2fp
