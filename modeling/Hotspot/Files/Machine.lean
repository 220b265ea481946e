import Hotspot.Files.Disk
import Hotspot.Files.Host

/-!
A machine in memory: a disk, a working directory on it, and all that has been
printed. It is a host, with every effect of a command in plain sight.
-/

namespace Hotspot

structure Machine where
  disk : Disk
  workingDirectory : Place
  printed : String
deriving DecidableEq

namespace Machine

/-- Takes over a changed disk, or answers why there is none. -/
def change (m : Machine) : Except FileFault Disk → Except FileFault Unit × Machine
  | .ok disk => (.ok (), { m with disk })
  | .error fault => (.error fault, m)

def pathExists (m : Machine) (path : Path) : Bool :=
  (m.disk.lookup m.workingDirectory path).isOk

def isDirectory (m : Machine) (path : Path) : Bool :=
  match m.disk.lookup m.workingDirectory path with
  | .ok .directory => true
  | _ => false

def readText (m : Machine) (path : Path) : Except FileFault String :=
  m.disk.readText m.workingDirectory path

theorem pathExists_of_readText {m : Machine} {path : Path} {text : String}
    (h : m.readText path = .ok text) : m.pathExists path = true := by
  rw [readText, Disk.readText] at h
  rw [pathExists]
  cases hlookup : m.disk.lookup m.workingDirectory path with
  | error fault =>
    rw [hlookup] at h
    cases h
  | ok node => rfl

def writeText (m : Machine) (path : Path) (text : String) : Except FileFault Unit × Machine :=
  m.change (m.disk.writeFile m.workingDirectory path (Text.encode text))

instance : Host (StateM Machine) where
  workingDirectory m := (.ok m.workingDirectory.path, m)
  pathExists path m := (m.pathExists path, m)
  isDirectory path m := (m.isDirectory path, m)
  readText path m := (m.readText path, m)
  makeDirectory path m := m.change (m.disk.makeDirectory m.workingDirectory path)
  createFile path m := m.writeText path ""
  writeText path text m := m.writeText path text
  print text m := ((), { m with printed := m.printed ++ text })

end Machine

end Hotspot
