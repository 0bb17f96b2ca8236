/-!
# Error numbers

A system call that fails returns the negated number of its error.
-/

namespace Xv6Duo

/-- `EPERM`. -/
def eperm : Int := 1

/-- `ENOENT`. -/
def enoent : Int := 2

/-- `ESRCH`. -/
def esrch : Int := 3

/-- `EIO`. -/
def eio : Int := 5

/-- `ENOEXEC`. -/
def enoexec : Int := 8

/-- `EBADF`. -/
def ebadf : Int := 9

/-- `ECHILD`. -/
def echild : Int := 10

/-- `ENOMEM`. -/
def enomem : Int := 12

/-- `EACCES`. -/
def eacces : Int := 13

/-- `EFAULT`. -/
def efault : Int := 14

/-- `EEXIST`. -/
def eexist : Int := 17

/-- `ENOTDIR`. -/
def enotdir : Int := 20

/-- `EISDIR`. -/
def eisdir : Int := 21

/-- `EINVAL`. -/
def einval : Int := 22

/-- `ENFILE`. -/
def enfile : Int := 23

/-- `EMFILE`. -/
def emfile : Int := 24

/-- `ENOSPC`. -/
def enospc : Int := 28

/-- `ENAMETOOLONG`. -/
def enametoolong : Int := 36

/-- `EDQUOT`. -/
def edquot : Int := 122

end Xv6Duo
