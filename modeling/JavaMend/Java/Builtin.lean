import JavaMend.Java.Constants
import JavaMend.Java.Renames

/-!
# `Java.Builtin` — the tables in effect without configuration

OpenGL constants for the calls of rendering code, and the classes of the mod loader under their public names.

## Contents
- `glGroup`, `builtinConstants`.
- `builtinRenames`; `builtinRenames_fault?` says that it may be used.
-/

namespace JavaMend.Java

open JavaMend Text

/-- A group of constants of `GL11`. -/
def glGroup (calls : List String) (values : List (Int × String)) : ConstantGroup :=
  .ofPairs (calls.map text) (some (text "org.lwjgl.opengl.GL11"))
    (values.map fun (value, name) => (value, text "GL11." ++ text name))

/-- The constants in effect unless others are configured. -/
def builtinConstants : ConstantTable := [
    glGroup ["GL11.glEnable", "GL11.glDisable", "GL11.glIsEnabled"]
      [(2884, "GL_CULL_FACE"), (2896, "GL_LIGHTING"), (2903, "GL_COLOR_MATERIAL"),
        (2912, "GL_FOG"), (2929, "GL_DEPTH_TEST"), (3008, "GL_ALPHA_TEST"), (3042, "GL_BLEND"),
        (3553, "GL_TEXTURE_2D"), (16384, "GL_LIGHT0"), (16385, "GL_LIGHT1"),
        (32826, "GL_RESCALE_NORMAL")],
    glGroup ["GL11.glBlendFunc"]
      [(0, "GL_ZERO"), (1, "GL_ONE"), (768, "GL_SRC_COLOR"), (769, "GL_ONE_MINUS_SRC_COLOR"),
        (770, "GL_SRC_ALPHA"), (771, "GL_ONE_MINUS_SRC_ALPHA"), (774, "GL_DST_COLOR"),
        (775, "GL_ONE_MINUS_DST_COLOR")],
    glGroup ["GL11.glBegin"]
      [(0, "GL_POINTS"), (1, "GL_LINES"), (2, "GL_LINE_LOOP"), (3, "GL_LINE_STRIP"),
        (4, "GL_TRIANGLES"), (5, "GL_TRIANGLE_STRIP"), (6, "GL_TRIANGLE_FAN"), (7, "GL_QUADS")],
    glGroup ["GL11.glMatrixMode"]
      [(5888, "GL_MODELVIEW"), (5889, "GL_PROJECTION"), (5890, "GL_TEXTURE")],
    glGroup ["GL11.glShadeModel"]
      [(7424, "GL_FLAT"), (7425, "GL_SMOOTH")],
    glGroup ["GL11.glDepthFunc", "GL11.glAlphaFunc"]
      [(512, "GL_NEVER"), (513, "GL_LESS"), (514, "GL_EQUAL"), (515, "GL_LEQUAL"),
        (516, "GL_GREATER"), (517, "GL_NOTEQUAL"), (518, "GL_GEQUAL"), (519, "GL_ALWAYS")],
    glGroup ["GL11.glClear"]
      [(256, "GL_DEPTH_BUFFER_BIT"), (16384, "GL_COLOR_BUFFER_BIT")],
    glGroup ["GL11.glTexParameteri", "GL11.glTexParameterf"]
      [(3553, "GL_TEXTURE_2D"), (9728, "GL_NEAREST"), (9729, "GL_LINEAR"),
        (10240, "GL_TEXTURE_MAG_FILTER"), (10241, "GL_TEXTURE_MIN_FILTER"),
        (10242, "GL_TEXTURE_WRAP_S"), (10243, "GL_TEXTURE_WRAP_T"), (10496, "GL_CLAMP"),
        (10497, "GL_REPEAT")]
  ]

/-- The renames in effect unless others are configured. -/
def builtinRenames : RenameTable := [
    (text "net.minecraft.src.BaseMod", text "cpw.mods.fml.common.modloader.BaseMod"),
    (text "net.minecraft.src.FMLRenderAccessLibrary",
      text "cpw.mods.fml.client.FMLRenderAccessLibrary"),
    (text "net.minecraft.src.ModLoader", text "cpw.mods.fml.common.modloader.ModLoader")
  ]

/-- No name is renamed twice. -/
theorem builtinRenames_fault? : builtinRenames.fault? = none := by decide +kernel

end JavaMend.Java
