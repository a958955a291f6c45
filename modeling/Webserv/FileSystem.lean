import Webserv.Utils

/-!
# What the file system answers

The answers that the standard library gets from the file system while one event is handled.
`none` is an exception `filesystem_error` for the functions of `std::filesystem`, and a failure to
open for the streams and for `opendir`.
-/

namespace Webserv

/-- The answers of the file system. -/
structure FileSystem where
  /-- `std::filesystem::weakly_canonical`. -/
  weaklyCanonical : Bytes → Option Bytes := fun path => some path
  /-- `std::filesystem::is_directory`. -/
  isDirectory : Bytes → Option Bool := fun _ => some false
  /-- `std::filesystem::is_regular_file`. -/
  isRegularFile : Bytes → Option Bool := fun _ => some false
  /-- What an `std::ifstream` opened on a path reads. -/
  readFile : Bytes → Option Bytes := fun _ => none
  /-- Whether `outfile.open(path, std::fstream::in)` succeeds. -/
  openForUpdate : Bytes → Bool := fun _ => false
  /-- Whether `outfile.open(path, std::fstream::out)` succeeds. -/
  openForWriting : Bytes → Bool := fun _ => false
  /-- `std::filesystem::remove`. -/
  remove : Bytes → Option Bool := fun _ => some false
  /-- The entries `readdir` lists, each with whether it is a directory. -/
  entries : Bytes → Option (List (Bytes × Bool)) := fun _ => none

end Webserv
