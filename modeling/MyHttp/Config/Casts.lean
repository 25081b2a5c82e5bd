import MyHttp.Config.Yaml
import MyHttp.Log.FormatItems
import MyHttp.Log.Logger

/-! The casts between the structures of the configuration and their YAML texts (`log.cpp`, `application.cpp`). -/

namespace MyHttp

open Lib.CString

/-- `node[key].as<std::string>()`, or a default where the key is not defined. -/
def stringAt (yaml : YamlCpp) (node : Yaml) (key : String) (default : Bytes) : Option Bytes := do
  match ← node.get key with
  | none => some default
  | some value => yaml.asString value

namespace Log

/-- `node["formatter"]`, where there is a formatter. -/
def formatterEntry (formatter : Bytes) : List (Yaml × Yaml) :=
  if formatter ≠ [] then [(.text "formatter", .scalar formatter)] else []

namespace LogAppenderDefine

/-- The node that is put together from a definition. -/
def node (ld : LogAppenderDefine) : Yaml :=
  .map ((if ld.type = 1 then [(.text "type", .text "FileLogAppender"), (.text "file", .scalar ld.file)]
    else if ld.type = 2 then [(.text "type", .text "StdoutLogAppender")] else []) ++
    [(.text "level", .scalar (levelToString ld.level))] ++ formatterEntry ld.formatter)

/-- `LexicalCast<LogAppenderDefine, std::string>`. -/
def toString (yaml : YamlCpp) (ld : LogAppenderDefine) : Option Bytes := some (yaml.emit ld.node)

/-- `LexicalCast<std::string, LogAppenderDefine>`. -/
def fromString (yaml : YamlCpp) (v : Bytes) : Option LogAppenderDefine := do
  let node ← yaml.load v
  match ← node.get "type" with
  | none => return ⟨0, 0, [], []⟩
  | some typeNode =>
    let level := levelFromString (← stringAt yaml node "level" [])
    let type ← yaml.asString typeNode
    if type = ascii "FileLogAppender" then
      match ← node.get "file" with
      | none => return ⟨1, level, [], []⟩
      | some fileNode =>
        let file ← yaml.asString fileNode
        return ⟨1, level, ← stringAt yaml node "formatter" [], file⟩
    else if type = ascii "StdoutLogAppender" then return ⟨2, level, [], []⟩
    else return ⟨0, level, [], []⟩

end LogAppenderDefine

namespace LogDefine

/-- The appenders are assigned as the text of their list. -/
def node (ld : LogDefine) (appenders : Bytes) : Yaml :=
  .map ([(.text "name", .scalar ld.name), (.text "level", .scalar (levelToString ld.level))] ++
    formatterEntry ld.formatter ++ [(.text "appenders", .scalar appenders)])

/-- `LexicalCast<LogDefine, std::string>`. -/
def toString (yaml : YamlCpp) (ld : LogDefine) : Option Bytes :=
  (yaml.vectorToString (LogAppenderDefine.toString yaml) ld.appenders).map fun appenders => yaml.emit (ld.node appenders)

/-- `LexicalCast<std::string, LogDefine>`. -/
def fromString (yaml : YamlCpp) (v : Bytes) : Option LogDefine := do
  let node ← yaml.load v
  match ← node.get "name" with
  | none => return ⟨[], 0, [], []⟩
  | some nameNode =>
    let name ← yaml.asString nameNode
    let level := levelFromString (← stringAt yaml node "level" [])
    let formatter ← stringAt yaml node "formatter" []
    match ← node.get "appenders" with
    | none => return ⟨name, level, formatter, []⟩
    | some appenders =>
      return ⟨name, level, formatter,
        ← yaml.vectorFromString (LogAppenderDefine.fromString yaml) (yaml.emit appenders)⟩

end LogDefine
end Log

/-- `HttpServerConf`. -/
structure HttpServerConf where
  address : List Bytes
  keepalive : Int32
  timeout : Int32
  name : Bytes
deriving DecidableEq, Repr

namespace HttpServerConf

/-- The values before anything is read. -/
def default : HttpServerConf := ⟨[], 0, 120000, []⟩

def node (yaml : YamlCpp) (conf : HttpServerConf) : Yaml :=
  .map ([(.text "name", .scalar conf.name), (.text "keepalive", yaml.ofInt conf.keepalive),
    (.text "timeout", yaml.ofInt conf.timeout)] ++
    if conf.address ≠ [] then [(.text "address", .sequence (conf.address.map .scalar))] else [])

/-- `LexicalCast<HttpServerConf, std::string>`. -/
def toString (yaml : YamlCpp) (conf : HttpServerConf) : Option Bytes := some (yaml.emit (conf.node yaml))

/-- `node[key].as<int>(fallback)`. -/
def intAt (yaml : YamlCpp) (node : Yaml) (key : String) (fallback : Int32) : Option Int32 :=
  (node.get key).map fun value => (value.bind yaml.asInt).getD fallback

/-- `LexicalCast<std::string, HttpServerConf>`. -/
def fromString (yaml : YamlCpp) (v : Bytes) : Option HttpServerConf := do
  let node ← yaml.load v
  let keepalive ← intAt yaml node "keepalive" default.keepalive
  let timeout ← intAt yaml node "timeout" default.timeout
  let name := ((← node.get "name").bind yaml.asString).getD default.name
  match ← node.get "address" with
  | none => return ⟨[], keepalive, timeout, name⟩
  | some addresses => return ⟨← (yaml.elements addresses).mapM yaml.asString, keepalive, timeout, name⟩

end HttpServerConf
end MyHttp
