import CppScaffold.CodeAction.Member

/-!
# The tools and their arguments

Each tool is announced with a name, a description and a JSON schema of its arguments.
-/

namespace CppScaffold

structure Tool where
  name : Text
  description : Text
  schema : Json

namespace Tool

abbrev Property := String × Json

def accessNames : List Text := ["public", "protected", "private"]

def destinationNames : List Text := ["matching_source_file", "class"]

def siteNames : List Text := (NamedChoice.names : List (Text × DefinitionSite)).map (·.1)

def operatorNames : List Text := CodeAction.OperatorGroup.names.map (·.1)

def textProperty (name description : String) : Property :=
  (name, .object [("type", .text "string"), ("description", .text description)])

def integerProperty (name description : String) : Property :=
  (name, .object [("type", .text "integer"), ("description", .text description)])

def switchProperty (name description : String) : Property :=
  (name, .object [("type", .text "boolean"), ("description", .text description), ("default", .bool false)])

def namesProperty (name description : String) : Property :=
  (name, .object [("type", .text "array"), ("items", .object [("type", .text "string")]),
    ("description", .text description)])

def choiceProperty (name : String) (choices : List Text) (description : String) (default : Option String) :
    Property :=
  (name, .object ([("type", .text "string"), ("enum", .ofList .str choices), ("description", .text description)]
    ++ (default.map fun d => ("default", Json.text d)).toList))

def fileProperty : Property :=
  textProperty "file_path" "Path of the file, absolute or relative to the project directory"

def placeProperties : List Property :=
  [fileProperty, integerProperty "line" "Zero-based line of the symbol",
    integerProperty "character" "Zero-based character offset within the line"]

def applyProperty : Property :=
  switchProperty "apply" "Write the edits to disk instead of only returning them. Default: false"

def announce (name description : String) (properties : List Property) (required : List String) : Tool where
  name := name
  description := description
  schema := .object ([("type", .text "object"), ("properties", .object properties)]
    ++ if required.isEmpty then [] else [("required", .ofList .text required)])

def placeNames : List String := ["file_path", "line", "character"]

def all : List Tool := [
  announce "set_project_directory"
    "Set the project directory to work in (must be called before the other tools)"
    [textProperty "project_path" "Absolute path to the C/C++ project directory"] ["project_path"],
  announce "get_document_symbols"
    "List the symbols (namespaces, classes, functions, variables) of a file as a tree"
    [fileProperty] ["file_path"],
  announce "add_definition"
    "Generate a definition for the function declared at a position, in the matching source file"
    (placeProperties ++ [
      switchProperty "in_current_file" "Put the definition in the same file. Default: false",
      namesProperty "initializers" "Optional: for constructors, the base classes and members to initialize",
      applyProperty])
    placeNames,
  announce "add_definitions"
    "Generate definitions for every undefined function declared in a file (or in the class at a position)"
    (placeProperties ++ [
      switchProperty "in_current_file" "Put the definitions in the same file. Default: false",
      namesProperty "function_names" "Optional: only define functions with these names",
      applyProperty])
    ["file_path"],
  announce "add_declaration"
    "Generate a declaration for the function defined at a position, in its class or the matching header"
    (placeProperties ++ [
      choiceProperty "access" accessNames "Access level for member functions. Default: public" (some "public"),
      applyProperty])
    placeNames,
  announce "generate_getter_setter"
    "Generate a getter and/or setter for the member variable at a position"
    (placeProperties ++ [
      choiceProperty "accessors" ["both", "getter", "setter"]
        "Which accessors to generate. Default: both" (some "both"),
      applyProperty])
    placeNames,
  announce "generate_operators"
    "Generate equality, relational or stream output operators for the class at a position"
    (placeProperties ++ [
      choiceProperty "kind" operatorNames "Which operators to generate" none,
      namesProperty "operands"
        "Optional: names of the base classes and member variables to use. Default: all of them",
      choiceProperty "definition_location" siteNames "Where the operator bodies go. Default: inline"
        (some "inline"),
      applyProperty])
    (placeNames ++ ["kind"]),
  announce "update_signature"
    "Update the linked declaration or definition of the function at a position to match its signature"
    (placeProperties ++ [applyProperty]) placeNames,
  announce "move_definition"
    "Move the function definition at a position to the matching source file, or into/out of its class"
    (placeProperties ++ [
      choiceProperty "destination" destinationNames
        "matching_source_file, or class to move the definition into or out of its class body" none,
      choiceProperty "access" accessNames
        "Access level when moving into a class without a declaration. Default: public" (some "public"),
      applyProperty])
    (placeNames ++ ["destination"]),
  announce "add_header_guard"
    "Add a header guard (#pragma once and/or #ifndef/#define) to a header file"
    [fileProperty, applyProperty] ["file_path"],
  announce "add_include"
    "Add an include directive next to the existing system or project includes of a file"
    [fileProperty,
      textProperty "include" "The directive ('#include <vector>') or just the file ('<vector>', '\"widget.h\"')",
      applyProperty]
    ["file_path", "include"],
  announce "find_matching_file"
    "Find the source file of a header, or the header of a source file"
    [fileProperty] ["file_path"],
  announce "get_server_status" "Get server status and configuration" [] []]

end Tool

end CppScaffold
