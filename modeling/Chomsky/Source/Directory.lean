import Chomsky.Source.Reading

/-!
# Files

Files are known by what comes of opening each path, which may be anything. One
way to know them is a directory that is given by the files in it, each with its
path from there. Paths are followed in it segment by segment: a segment that
names a file must be the last one, and a path that stops at a directory names no
file.
-/

namespace Chomsky

/-- What comes of opening each path: what the file holds, or why it cannot be
opened. -/
abbrev Files := String → Except FileFault Bytes

/-- The grammar in the file that a path names. -/
def Files.readGrammar (files : Files) (path : String) : Except (List SourceError) Grammar :=
  readGrammarFrom path (files path)

/-- The files below a directory, each with its path from there. -/
abbrev Directory := List (String × Bytes)

namespace Directory

/-- The way to a file without its idle segments. -/
def wayTo (path : String) : List String :=
  (Path.segments path).filter fun segment => !Path.isIdle segment

/-- The contents of the file at the end of a way, if there is one. -/
def file? (directory : Directory) (way : List String) : Option Bytes :=
  (directory.find? fun entry => wayTo entry.1 = way).map Prod.snd

/-- Whether some file lies further along a way. -/
def isInner (directory : Directory) (way : List String) : Bool :=
  directory.any fun entry => way.length < (wayTo entry.1).length && way.isPrefixOf (wayTo entry.1)

/-- The file that is reached by following segments from an inner directory. A
double dot leads back, and out of the outermost directory to nothing. -/
def follow (directory : Directory) (position : List String) :
    List String → Except FileFault Bytes
  | [] => .error .notFound
  | segment :: rest =>
      if Path.isIdle segment then
        follow directory position rest
      else if segment = ".." then
        if position = [] then .error .notFound
        else follow directory position.dropLast rest
      else
        match directory.file? (position ++ [segment]), rest with
        | some contents, [] => .ok contents
        | some _, _ :: _ => .error .notADirectory
        | none, _ =>
            if directory.isInner (position ++ [segment]) then
              follow directory (position ++ [segment]) rest
            else
              .error .notFound

/-- The contents of the file that a path names, as far as the directory knows
files: nothing is known of those outside of it, where an absolute path leads. -/
def read (directory : Directory) (path : String) : Except FileFault Bytes :=
  if (Path.components path).head? = some "/" then .error .notFound
  else follow directory [] (Path.segments path)

/-- The grammar in the file that a path names. -/
def readGrammar (directory : Directory) (path : String) :
    Except (List SourceError) Grammar :=
  Files.readGrammar directory.read path

end Directory

end Chomsky
